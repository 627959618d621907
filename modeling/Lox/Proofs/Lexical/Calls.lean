import Lox.Proofs.Lexical.Methods

/-!
# Calls that match

A call comes to the body of its function with a scope for the parameters on the one side and the
captured map extended with them on the other.  If the two runs of the body match, so do the calls.
-/

namespace Lox.Lexical

variable {S : Setting} {μ : Links} {s : RunState} {l : State} {Γ : Nesting}
  {f f' : FunctionObject} {vs : List Value} {runBody : List Stmt → Run Completion}
  {runBody' : Env → List Stmt → Eval Completion}

/-- The two runs of the body of a function match, wherever it is come to. -/
def BodyMatches (S : Setting) (runBody : List Stmt → Run Completion)
    (runBody' : Env → List Stmt → Eval Completion) (d : FunctionDecl) (Γ : Nesting)
    (s : RunState) : Prop :=
  ∀ μ ρ l, Simulates S μ s l → SameScope μ s.store (Frame.ofCall d :: Γ) s.scope ρ →
    Matches S μ (Same (inStoreBut s.store s.scope) μ) (runBody d.body s) (runBody' ρ d.body l)

/-- What a run inside of a new scope leaves alone. -/
theorem inStoreBut_of_newScope {st : Store} {scope : Scope} {e : ScopeId} (he : inStore st e) :
    inStoreBut (st.newScope scope).2 (st.newScope scope).1 e := by
  refine ⟨Nat.lt_of_lt_of_le he (by simp), ?_⟩
  rintro rfl
  exact Nat.lt_irrefl _ he

theorem inStore_of_extends {named : Prop} {st st' : Store} (hx : st.Extends named st') {e : ScopeId}
    (he : inStore st e) : inStore st' e := Nat.lt_of_lt_of_le he hx.size

/-- How a call ends, from how its body does. -/
theorem callFunction_matches (hc : S.named) (h : Simulates S μ s l) (hs : StoreOk S s.store)
    (hf : FunctionOk S s.store f Γ) (hr : SameFunction S μ s.store l.captured f f')
    (hlen : f.declaration.params.length = vs.length)
    (hsafe : ∀ scope s', Run.enterFunction f vs s = .ok scope s' →
      Safe S { s' with scope := scope } (ReturnOk S)
        (runBody f.declaration.body { s' with scope := scope }))
    (hbody : ∀ scope s', Run.enterFunction f vs s = .ok scope s' →
      BodyMatches S runBody runBody' f.declaration Γ { s' with scope := scope }) :
    Matches S μ (Same (inStore s.store) μ) (Run.callFunction runBody f vs s)
      (Eval.callFunction runBody' f' vs l) := by
  obtain ⟨ρ, hρ, hn⟩ := hr.names_at (.of_function hf)
  obtain ⟨own, cells, ρ', hl', hb⟩ := Bound.params (f.declaration.params.zip vs) (.enter ρ l.cells)
  obtain ⟨μ', hg, hsame, hsim, hscope⟩ := h.enter (f := Frame.ofCall f.declaration)
    (Run.callScope f vs) hs.globals_lt hb hn rfl
    fun x => by rw [Bool.eq_iff_iff, Frame.has_ofCall, Run.isSome_callScope hlen]
  have hgrows : s.store.Extends S.named _ := .newScope s.store (Run.callScope f vs)
  have hrun := hbody _ _ rfl μ' ρ' _ (hsim.inScope _) hscope
  have hsafe := Safe.inScope (hsafe _ _ rfl)
  unfold Run.callFunction Eval.callFunction
  rw [Action.bind_of_ok (x := Run.enterFunction f vs) rfl, Action.bind_of_ok (capturedBy_eq hρ),
    hr.declaration, Action.bind_of_ok hl', hr.isInitializer]
  refine .later hg (Matches.bind_same hrun.inScope fun μ'' c s₂ l₂ hc₂ hg' hsame' hsim' => ?_)
  rw [hc₂] at hsafe
  have hold : μ.SameOn (inStore s.store) μ'' :=
    hsame.trans hsame' fun e he => inStoreBut_of_newScope he
  cases hi : f.isInitializer with
  | true =>
    obtain ⟨g, Δ, rfl, hthis⟩ := hf.bound hi
    have hgrows' := hgrows.trans hsafe.1.grows
    obtain ⟨v, hv⟩ := Option.isSome_iff_exists.1 ((hf.mono hgrows').isSome_this hi hc)
    have hget : s₂.store.getAt f.closure 0 "this" = .ok v := by
      simp only [Store.getAt, Store.scopeAt_zero, hv]
    have hd : Nesting.distance? (g :: Δ) "this" = some 0 := by
      rw [Nesting.distance?_cons, Frame.has, hthis]
      rfl
    obtain ⟨ℓ, hfind, hread⟩ := (hn.mono hgrows' (hg.trans hg')).read hsim' trivial hd hget
    show Matches S μ'' _ ((Run.ask _ >>= _) s₂) (Eval.readLocal ρ "this" l₂)
    rw [Run.ask_bind, Eval.readLocal, hfind]
    show Matches S μ'' _ (Run.ofScope (s₂.store.getAt f.closure 0 "this") s₂) (Eval.read "this" ℓ l₂)
    rw [hget, hread]
    exact .ok hsim' ⟨rfl, hold⟩
  | false =>
    cases c with
    | normal => exact .ok hsim' ⟨rfl, hold⟩
    | returned v => exact .ok hsim' ⟨rfl, hold⟩

/-- Invoking what is callable: the nesting of the function that is come to is the one it has. -/
theorem invoke_matches {c c' : Callable} (hc : S.named) (h : Simulates S μ s l)
    (hok : CallOk S s c vs) (hr : SameObjects.SameCallable S μ s.store l.captured c c')
    (hsafe : ∀ f s', Starts vs c s f s' → Safe S s' (ReturnOk S) (runBody f.declaration.body s'))
    (hbody : ∀ f s' Δ, Starts vs c s f s' → S.declared Δ f.declaration →
      BodyMatches S runBody runBody' f.declaration Δ s') :
    Matches S μ (Same (inStore s.store) μ) (Run.invoke runBody c vs s)
      (Eval.invoke runBody' c' vs l) := by
  have harity := hok.arity
  cases hr with
  | @function f f' hr =>
    obtain ⟨Γ, hf⟩ := hok.callee f rfl
    have hlen : f.declaration.params.length = vs.length := by
      simp only [Store.arity, FunctionObject.arity, FunctionDecl.arity] at harity
      omega
    exact callFunction_matches hc h hok.store hf hr hlen
      (fun scope s' he => hsafe f _ (.function he))
      fun scope s' he => hbody f _ Γ (.function he) hf.declared
  | native n => exact .same h
  | cls c =>
    obtain ⟨hid, hsim⟩ := h.newInstance c
    have hs₁ := hok.store.newInstance c
    show Matches S μ _ ((Run.alloc _ >>= _) s) ((Eval.alloc _ >>= _) l)
    rw [Run.alloc_bind, Action.bind_of_ok (x := Eval.alloc _) rfl, Run.ask_bind,
      Action.bind_of_ok (x := Eval.ask _) rfl]
    rcases SameObjects.rel_cases (hsim.objects.method? c FunctionDecl.initializerName) with
      ⟨hx, hy⟩ | ⟨f, f', hx, hy, hr⟩
    · rw [Store.initializer?, Store.initializer?, hx, hy, hid]
      exact .same hsim
    · have hcon : Constructs c s f _ _ := .mk rfl hx rfl
      obtain ⟨fr, Δ, hm⟩ := hs₁.method? hx
      have hthis : ValueOk S (s.store.newInstance c).2 (.inst (s.store.newInstance c).1) :=
        .of_ne (by simp) (by simp)
      obtain ⟨hs₂, hx₂, hfok⟩ := bind_ok hs₁ hm hthis (hok.bind c f _ _ rfl hcon)
      obtain ⟨μ', g', l', hl', hg, hsame, hsim', hr'⟩ := hsim.bind hs₁ hm hr hfok
      have hlen := (Int.ofNat.inj (harity.trans (arity_of_constructs hcon))).symm
      rw [Store.initializer?, Store.initializer?, hx, hy, hid]
      show Matches S μ _ ((Run.alloc _ >>= _) _) ((Eval.bind f' _ >>= _) _)
      rw [Run.alloc_bind, Action.bind_of_ok hl']
      have hcall := callFunction_matches hc hsim' hs₂ hfok hr' hlen
        (fun scope s' he => hsafe _ _ (.construct hcon he))
        fun scope s' he => hbody _ _ _ (.construct hcon he) hfok.declared
      refine .later hg (Matches.bind_same hcall fun μ'' v s₂ l₂ _ hg' hsame' hsim₂ => ?_)
      exact .ok hsim₂ ⟨rfl, hsame.trans hsame' fun e he => inStore_of_extends hx₂ he⟩

/-- A call of a value, with its checks. -/
theorem call_matches (paren : Token) (callee : Value) (h : Simulates S μ s l)
    (hinvoke : ∀ c c', s.store.callable? callee = some c → vs.length = s.store.arity c →
      s.depth < S.context.maxDepth → SameObjects.SameCallable S μ s.store l.captured c c' →
      Matches S μ (Same (inStore s.store) μ)
        (Run.invoke runBody c vs { s with depth := s.depth + 1 })
        (Eval.invoke runBody' c' vs { l with depth := l.depth + 1 })) :
    Matches S μ (Same (inStore s.store) μ) (Run.call S.context runBody paren callee vs s)
      (Eval.call S.context.maxDepth runBody' paren callee vs l) := by
  unfold Run.call Eval.call
  rw [Run.ask_bind, Action.bind_of_ok (x := Eval.ask _) rfl]
  rcases SameObjects.rel_cases (h.objects.callable? callee) with ⟨hx, hy⟩ | ⟨c, c', hx, hy, hr⟩
  · rw [hx, hy]
    exact .raised h _
  · rw [hx, hy]
    show Matches S μ _ ((Run.ask _ >>= _) s) ((Eval.ask _ >>= _) l)
    rw [Run.ask_bind, Action.bind_of_ok (x := Eval.ask _) rfl, h.objects.arity hr]
    by_cases harity : vs.length = s.store.arity c
    · rw [if_neg (not_not.2 harity), if_neg (not_not.2 harity)]
      show Matches S μ _ ((Run.callDepth >>= _) s) ((Eval.callDepth >>= _) l)
      rw [Run.callDepth_bind, Action.bind_of_ok (x := Eval.callDepth) rfl, h.depth]
      by_cases hdepth : S.context.maxDepth ≤ s.depth
      · rw [if_pos hdepth, if_pos hdepth]
        exact .raised h _
      · rw [if_neg hdepth, if_neg hdepth]
        exact Matches.deeper (fun _ _ _ _ _ _ hq => hq) (hinvoke c c' hx harity (by omega) hr)
    · rw [if_pos harity, if_pos harity]
      exact .raised h _

end Lox.Lexical

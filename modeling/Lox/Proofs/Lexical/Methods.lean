import Lox.Proofs.Lexical.Variables

/-!
# Functions and methods, in scopes and in maps

Binding a method and calling a function make a scope on the one side and extend the captured map on
the other.  What is run next, the body of the function, finds a map that stands for its scopes.
-/

namespace Lox

theorem Frame.has_of_marks {f : Frame} {y : String} {b : Bool} (h : f.marks = [(y, b)]) (x : String) :
    f.has x = decide (x = y) := by
  rw [has, ready?, h, List.lookup_cons]
  by_cases hx : x = y
  · simp [hx]
  · simp [hx, beq_eq_false_iff_ne.2 hx]

namespace Lexical

variable {S : Setting} {P : ScopeId → Prop} {μ : Links} {s : RunState} {l : State} {Γ : Nesting}
  {e : ScopeId} {ρ : Env} {f f' : FunctionObject} {g : Frame} {this : Value}

/-- What a function captured is at hand. -/
theorem capturedBy_eq (hc : l.captured[f'.closure.index]? = some ρ) :
    Eval.capturedBy f' l = .ok ρ l := by
  simp only [Eval.capturedBy, hc, Option.getD_some]

/-! ### Binding methods -/

/-- A method that is bound to an instance. -/
theorem Simulates.bind (h : Simulates S μ s l) (hs : StoreOk S s.store) (hf : MethodOk S s.store f g Γ)
    (hr : SameFunction S μ s.store l.captured f f')
    (hok : FunctionOk S (s.store.bind f this).2 (s.store.bind f this).1 (g :: Γ)) :
    ∃ μ' g' l', Eval.bind f' this l = .ok g' l' ∧ μ.Grows μ' ∧ μ.SameOn (inStore s.store) μ' ∧
      Simulates S μ' { s with store := (s.store.bind f this).2 } l' ∧
      SameFunction S μ' (s.store.bind f this).2 l'.captured (s.store.bind f this).1 g' := by
  obtain ⟨ρ, hρ, hn⟩ := hr.names_at (.of_method hf)
  have hb := (Bound.enter ρ l.cells).insert "this" this
  obtain ⟨μ', hg, hsame, hsim, hscope⟩ := h.enter (f := g)
    { enclosing := some f.closure, values := {("this", this)} } hs.globals_lt hb hn rfl
    fun x => (Frame.has_of_marks hf.marks x).trans (isSome_singleton "this" this x).symm
  refine ⟨μ', { f' with closure := ⟨l.captured.size⟩ }, _, ?_, hg, hsame, hsim.capture (ρ.enter.extend "this" ⟨l.cells.size⟩), ?_⟩
  · unfold Eval.bind
    rw [Action.bind_of_ok (capturedBy_eq hρ)]
    rfl
  · refine ⟨hr.declaration, hr.isInitializer, _, g :: Γ, ?_, .of_function hok, hscope.names⟩
    exact Array.getElem?_push_size

theorem bindValue_matches (h : Simulates S μ s l) (hs : StoreOk S s.store)
    (hf : MethodOk S s.store f g Γ) (hr : SameFunction S μ s.store l.captured f f')
    (hv : ValueOk S s.store this)
    (ho : S.opened (s.store.bind f this).1.closure (.bind f.declaration.id)) :
    Matches S μ (Same (inStore s.store) μ) (Run.alloc (·.bindValue f this) s)
      (Eval.bindValue f' this l) := by
  obtain ⟨-, -, hok⟩ := bind_ok hs hf hv ho
  obtain ⟨μ', g', l', hl', hg, hsame, hsim, hr'⟩ := h.bind hs hf hr hok
  obtain ⟨hid, hsim'⟩ := hsim.newFunction hr'
  have hright : Eval.bindValue f' this l =
      .ok (.function (l'.objects.newFunction g').1) { l' with objects := (l'.objects.newFunction g').2 } := by
    unfold Eval.bindValue
    rw [Action.bind_of_ok hl']
    rfl
  rw [hright, hid]
  exact ⟨μ', hg, hsim', rfl, hsame⟩

theorem getProperty_matches {i : InstanceId} {name : Token} (h : Simulates S μ s l)
    (hs : StoreOk S s.store)
    (ho : ∀ f, s.store.member? i name.lexeme = some (.method f) →
      S.opened (s.store.bind f (.inst i)).1.closure (.bind f.declaration.id)) :
    Matches S μ (Same (inStore s.store) μ) (Run.getProperty i name s) (Eval.getProperty i name l) := by
  unfold Run.getProperty Eval.getProperty
  rw [Run.ask_bind]
  show Matches S μ _ _ ((Eval.ask _ >>= _) l)
  rw [Action.bind_of_ok (x := Eval.ask _) rfl]
  rcases SameObjects.rel_cases (h.objects.member? i name.lexeme) with
    ⟨hx, hy⟩ | ⟨m, m', hx, hy, hm⟩
  · rw [hx, hy]
    exact .raised h _
  · rw [hx, hy]
    cases hm with
    | field v => exact .same h
    | method hr =>
      obtain ⟨g, Γ, hok⟩ := hs.member? hx
      exact bindValue_matches h hs hok hr (.of_ne (by simp) (by simp)) (ho _ hx)

/-- A method of the superclass: both `super` and `this` are local names. -/
theorem superMethod_matches {id : NodeId} {method : Token} {d : Nat} {k : Frame} {o : NodeId}
    (hc : S.named) (h : Simulates S μ s l) (hs : StoreOk S s.store)
    (hm : Mirrors S anyName s.store Γ s.scope) (hn : SameNames μ anyName s.store Γ s.scope ρ)
    (ht : S.context.table[id]? = some (d + 1)) (hsuper : Γ.distance? "super" = some (d + 1))
    (hthis : Γ.distance? "this" = some d) (hk : Γ[d + 1]? = some k) (hop : k.opener = .super o)
    (hg : Γ[d]? = some g) (hready : g.ready? "this" = some true)
    (ho : ∀ d c this f, S.context.table[id]? = some d →
      s.store.getAt s.scope d "super" = .ok (.cls c) →
      s.store.getAt s.scope ((d : Int) - 1) "this" = .ok this →
      s.store.method? c method.lexeme = some f →
      S.opened (s.store.bind f this).1.closure (.bind f.declaration.id)) :
    Matches S μ (Same (inStore s.store) μ) (Run.superMethod S.context id method s)
      (Eval.superMethod ρ method l) := by
  obtain ⟨a₁, ha₁, hact₁⟩ := hm.ancestor hk
  obtain ⟨a₂, ha₂, hact₂⟩ := hm.ancestor hg
  obtain ⟨c, hclass⟩ := hact₁.holds hc o hop
  obtain ⟨this, hvalue⟩ := Option.isSome_iff_exists.1 (hact₂.bound (S.clean_of_named hc) "this" (S.sure_this hc _) trivial hready)
  have hget₁ : s.store.getAt s.scope ((d + 1 : Nat) : Int) "super" = .ok (.cls c) := by
    simp only [Store.getAt, Store.scopeAt, Int.toNat_natCast, ha₁, hclass]
  have hpred : (((d + 1 : Nat) : Int) - 1).toNat = d := by omega
  have hget₂ : s.store.getAt s.scope (((d + 1 : Nat) : Int) - 1) "this" = .ok this := by
    simp only [Store.getAt, Store.scopeAt, hpred, ha₂, hvalue]
  obtain ⟨ℓ₁, hf₁, hread₁⟩ := hn.read h trivial hsuper hget₁
  have hget₃ : s.store.getAt s.scope (d : Nat) "this" = .ok this := by
    simp only [Store.getAt, Store.scopeAt, Int.toNat_natCast, ha₂, hvalue]
  obtain ⟨ℓ₂, hf₂, hread₂⟩ := hn.read h trivial hthis hget₃
  unfold Run.superMethod Eval.superMethod Eval.readLocal
  rw [ht, hf₁, hf₂, Action.bind_of_ok hread₁, Action.bind_of_ok hread₂]
  show Matches S μ _ ((Run.currentScope >>= _) s) ((Eval.ask _ >>= _) l)
  rw [Run.currentScope_bind, Run.ask_bind, hget₁, Run.ofScope_ok_bind, Run.ask_bind, hget₂,
    Run.ofScope_ok_bind, Action.bind_of_ok (x := Eval.ask _) rfl]
  show Matches S μ _ ((Run.ask _ >>= _) s) _
  rw [Run.ask_bind]
  rcases SameObjects.rel_cases (h.objects.method? c method.lexeme) with
    ⟨hx, hy⟩ | ⟨f, f', hx, hy, hr⟩
  · rw [hx, hy]
    exact .raised h _
  · rw [hx, hy]
    obtain ⟨g', Δ, hok⟩ := hs.method? hx
    exact bindValue_matches h hs hok hr (hs.values _ _ _ hvalue) (ho _ c this f ht hget₁ hget₂ hx)

end Lexical

end Lox

import Lox.Proofs.Run.Names

/-!
# Methods, calls and classes at run time

Binding a method makes the scope with `this` that its nesting asks for, a call the scope of the
function, and a class declaration that of `super`; so what is run next finds scopes that mirror its
nesting.
-/

namespace Lox

variable {S : Setting} {s : RunState} {Γ : Nesting}

/-! ### Binding methods -/

/-- A scope that is made with one name. -/
theorem isSome_singleton (y : String) (v : Value) (x : String) :
    ((((∅ : Bindings).insert y v))[x]?).isSome = decide (x = y) := by
  rw [Std.ExtTreeMap.getElem?_insert]
  by_cases hx : x = y
  · simp [hx]
  · simp [hx, Ne.symm hx]

/-- A method bound to an instance. -/
theorem bind_ok {st : Store} {f : FunctionObject} {g : Frame} {this : Value} (hs : StoreOk S st)
    (hf : MethodOk S st f g Γ) (hv : ValueOk S st this)
    (ho : S.opened (st.bind f this).1.closure (.bind f.declaration.id)) :
    StoreOk S (st.bind f this).2 ∧ st.Extends S.named (st.bind f this).2 ∧
      FunctionOk S (st.bind f this).2 (st.bind f this).1 (g :: Γ) := by
  have hvalues : ({("this", this)} : Bindings) = (∅ : Bindings).insert "this" this := rfl
  have hnew : StoreOk S (st.bind f this).2 := by
    refine hs.newScope fun x v hx => ?_
    rw [hvalues, Std.ExtTreeMap.getElem?_insert] at hx
    split at hx
    · cases hx
      exact hv
    · cases hx
  have hthis : ((st.bind f this).2.read? (st.bind f this).1.closure "this").isSome := by
    refine (congrArg Option.isSome (Store.read?_newScope_self st _ "this")).trans ?_
    rw [hvalues]
    simp
  obtain ⟨id, methods, b, hog, hmem⟩ := hf.opener
  refine ⟨hnew, .newScope st _, hf.declared, ?_, fun _ => ⟨g, Γ, rfl, by rw [Frame.ready?, hf.marks]; rfl⟩⟩
  refine hs.mirrors_newScope _ hf.closure rfl ⟨_, ho, ?_⟩ (fun _ x _ hr => ?_) fun _ id' hid => ?_
  · rw [hog]
    exact hmem
  · rw [Frame.ready?, hf.marks] at hr
    obtain rfl : x = "this" := by
      by_contra hne
      rw [List.lookup_cons, beq_eq_false_iff_ne.2 hne] at hr
      cases hr
    rw [hvalues]
    simp
  · rw [hog] at hid
    cases hid

/-- A function of its own for a function that can be called. -/
theorem newFunction_ok {st : Store} {f : FunctionObject} (hs : StoreOk S st)
    (hf : FunctionOk S st f Γ) :
    StoreOk S (st.newFunction f).2 ∧ st.Extends S.named (st.newFunction f).2 ∧
      ValueOk S (st.newFunction f).2 (.function (st.newFunction f).1) := by
  have hx : st.Extends S.named (st.newFunction f).2 := .newFunction st f
  refine ⟨hs.newFunction f, hx, fun id hid => ?_, by simp⟩
  cases hid
  exact ⟨f, Γ, by rw [Store.function?_newFunction, if_pos rfl], hf.mono hx⟩

theorem bindValue_safe {f : FunctionObject} {g : Frame} {this : Value} (hs : StoreOk S s.store)
    (hf : MethodOk S s.store f g Γ) (hv : ValueOk S s.store this)
    (ho : S.opened (s.store.bind f this).1.closure (.bind f.declaration.id)) :
    Safe S s (fun v st => ValueOk S st v) (Run.alloc (·.bindValue f this) s) := by
  obtain ⟨hs₁, hx₁, hok⟩ := bind_ok hs hf hv ho
  obtain ⟨hs₂, hx₂, hvalue⟩ := newFunction_ok hs₁ hok
  exact ⟨.of_store hs₂ (hx₁.trans hx₂), hvalue⟩

/-! ### Properties -/

theorem getProperty_safe {i : InstanceId} {name : Token} (hs : StoreOk S s.store)
    (ho : ∀ f, s.store.member? i name.lexeme = some (.method f) →
      S.opened (s.store.bind f (.inst i)).1.closure (.bind f.declaration.id)) :
    Safe S s (fun v st => ValueOk S st v) (Run.getProperty i name s) := by
  unfold Run.getProperty
  rw [Run.ask_bind]
  cases hm : s.store.member? i name.lexeme with
  | none => exact .error hs
  | some m =>
    cases m with
    | field v =>
      refine .ok hs (hs.fields i name.lexeme v ?_)
      unfold Store.member? at hm
      split at hm
      · rename_i hv
        cases hm
        exact hv
      · obtain ⟨f, -, hf⟩ := Option.map_eq_some_iff.1 hm
        cases hf
    | method f =>
      obtain ⟨g, Γ, hok⟩ := hs.member? hm
      exact bindValue_safe hs hok (.of_ne (by simp) (by simp)) (ho f hm)

/-- A method of the superclass: where the programs are well-named, `super` is found just outside of a
scope with `this`. -/
theorem superMethod_safe {id : NodeId} {method : Token} (hs : StoreOk S s.store)
    (hm : Mirrors S anyName s.store Γ s.scope)
    (ht : ∀ d, S.context.table[id]? = some d → d < Γ.length)
    (hready : S.named → ∃ d f g id', S.context.table[id]? = some (d + 1) ∧ Γ[d + 1]? = some f ∧
      f.opener = .super id' ∧ Γ[d]? = some g ∧ g.ready? "this" = some true)
    (ho : ∀ d c this f, S.context.table[id]? = some d →
      s.store.getAt s.scope d "super" = .ok (.cls c) →
      s.store.getAt s.scope ((d : Int) - 1) "this" = .ok this →
      s.store.method? c method.lexeme = some f →
      S.opened (s.store.bind f this).1.closure (.bind f.declaration.id)) :
    Safe S s (fun v st => ValueOk S st v) (Run.superMethod S.context id method s) := by
  -- a read at a distance within the chain looks at the scope of the frame there
  have hget : ∀ (d : Nat) (i : Int) (x : String), d < Γ.length → i.toNat = d →
      ∃ f a, Γ[d]? = some f ∧ Activation S anyName s.store f a ∧
        s.store.getAt s.scope i x = (s.store.read? a x).elim (.error (.unbound x i)) .ok := by
    intro d i x hd hi
    obtain ⟨a, ha, hact⟩ := hm.ancestor (List.getElem?_eq_getElem hd)
    refine ⟨_, a, List.getElem?_eq_getElem hd, hact, ?_⟩
    cases hr : s.store.read? a x <;> simp [Store.getAt, Store.scopeAt, hi, ha, hr]
  unfold Run.superMethod
  cases hd : S.context.table[id]? with
  | none =>
    refine .raised hs (faultOk_of_not_named (fun hc => ?_) fun _ h => by cases h)
    obtain ⟨d, -, -, -, hd', -⟩ := hready hc
    simp [hd] at hd'
  | some d =>
    have hlt := ht d hd
    obtain ⟨f₁, a₁, hf₁, hact₁, hsuper⟩ := hget d d "super" hlt (by simp)
    obtain ⟨f₂, a₂, hf₂, hact₂, hthis⟩ := hget (d - 1) ((d : Int) - 1) "this" (by omega) (by omega)
    have hclass : S.named → s.store.HoldsClass a₁ := by
      intro hc
      obtain ⟨d', f, g, id', hd', hf, hop, -⟩ := hready hc
      rw [hd] at hd'
      cases hd'
      rw [hf₁] at hf
      cases hf
      exact hact₁.holds hc id' hop
    have hbound : S.named → (s.store.read? a₂ "this").isSome := by
      intro hc
      obtain ⟨d', f, g, id', hd', -, -, hg, hr⟩ := hready hc
      rw [hd] at hd'
      cases hd'
      rw [Nat.add_sub_cancel, hg] at hf₂
      cases hf₂
      exact hact₂.bound (S.clean_of_named hc) "this" (S.sure_this hc _) trivial hr
    show Safe S s _ ((Run.currentScope >>= _) s)
    rw [Run.currentScope_bind, Run.ask_bind, hsuper]
    cases hc : s.store.read? a₁ "super" with
    | none =>
      refine .raised hs (faultOk_of_not_named (fun hcl => ?_) fun _ h => by cases h)
      obtain ⟨c, hc'⟩ := hclass hcl
      simp [hc] at hc'
    | some superclass =>
      rw [hc, Option.elim_some] at hsuper
      rw [Option.elim_some, Run.ofScope_ok_bind, Run.ask_bind, hthis]
      cases hv : s.store.read? a₂ "this" with
      | none =>
        refine .raised hs (faultOk_of_not_named (fun hcl => ?_) fun _ h => by cases h)
        have := hbound hcl
        simp [hv] at this
      | some this =>
        rw [hv, Option.elim_some] at hthis
        rw [Option.elim_some, Run.ofScope_ok_bind]
        cases superclass with
        | cls c =>
          show Safe S s _ ((Run.ask _ >>= _) s)
          rw [Run.ask_bind]
          cases hmeth : s.store.method? c method.lexeme with
          | none => exact .error hs
          | some f =>
            obtain ⟨g, Δ, hok⟩ := hs.method? hmeth
            exact bindValue_safe hs hok (hs.values a₂ _ this hv) (ho d c this f hd hsuper hthis hmeth)
        | _ =>
          refine .raised hs (faultOk_of_not_named (fun hcl => ?_) fun _ h => by cases h)
          obtain ⟨c, hc'⟩ := hclass hcl
          simp [hc] at hc'

/-! ### Calls -/

/-- The scope of a call stands for the frame of the function. -/
theorem enterFunction_ok {f : FunctionObject} {vs : List Value} {scope : ScopeId} {s' : RunState}
    (hs : StoreOk S s.store) (hf : FunctionOk S s.store f Γ) (hvs : ∀ v ∈ vs, ValueOk S s.store v)
    (hlen : f.declaration.params.length = vs.length)
    (h : Run.enterFunction f vs s = .ok scope s')
    (ho : S.opened scope (.call f.declaration.id)) :
    Later S s s' ∧ Mirrors S anyName s'.store (Frame.ofCall f.declaration :: Γ) scope := by
  cases h
  refine ⟨.of_store (hs.newScope fun x v hx => hvs v (Run.callScope_cases hx).2) (.newScope _ _), ?_⟩
  refine hs.mirrors_newScope _ hf.closure rfl ⟨_, ho, ?_⟩ (fun _ x _ hr => ?_) fun _ id hid => ?_
  · rw [Frame.opener_ofCall]
    rfl
  · refine (Run.isSome_callScope hlen x).2 ((Frame.has_ofCall f.declaration x).1 ?_)
    rw [Frame.has, hr]
    rfl
  · rw [Frame.opener_ofCall] at hid
    cases hid

/-- A completion that returns hands back a value that is fine. -/
def ReturnOk (S : Setting) (c : Completion) (st : Store) : Prop :=
  ∀ v, c = .returned v → ValueOk S st v

/-- A call of a callable object may go ahead. -/
structure CallOk (S : Setting) (s : RunState) (c : Callable) (vs : List Value) : Prop where
  store : StoreOk S s.store
  callee : ∀ f, c = .function f → ∃ Γ, FunctionOk S s.store f Γ
  arguments : ∀ v ∈ vs, ValueOk S s.store v
  arity : vs.length = s.store.arity c
  call : ∀ f s', Starts vs c s f s' → S.opened s'.scope (.call f.declaration.id)
  bind : ∀ id f g s', c = .cls id → Constructs id s f g s' →
    S.opened g.closure (.bind f.declaration.id)

/-- A function that a value names can be called. -/
theorem ValueOk.callable {st : Store} {v : Value} {f : FunctionObject} (hv : ValueOk S st v)
    (hc : st.callable? v = some (.function f)) : ∃ Γ, FunctionOk S st f Γ := by
  cases v with
  | function id =>
    obtain ⟨f', Γ, hf', hok⟩ := hv.function id rfl
    simp only [Store.callable?, hf'] at hc
    cases hc
    exact ⟨Γ, hok⟩
  | native id => simp [Store.callable?] at hc
  | cls id => simp [Store.callable?] at hc
  | _ => cases hc

/-- An instance that was made, and its initializer bound to it. -/
theorem constructs_ok {c : ClassId} {f g : FunctionObject} {s' : RunState} (hs : StoreOk S s.store)
    (h : Constructs c s f g s') (ho : S.opened g.closure (.bind f.declaration.id)) :
    Later S s s' ∧ g.declaration = f.declaration ∧ ∃ Γ, FunctionOk S s'.store g Γ := by
  obtain ⟨hi, hf, hg⟩ := h
  cases hi
  cases hg
  have hs₁ := hs.newInstance c
  obtain ⟨fr, Γ, hok⟩ := hs₁.method? hf
  have hthis : ValueOk S (s.store.newInstance c).2 (.inst (s.store.newInstance c).1) :=
    .of_ne (by simp) (by simp)
  obtain ⟨hs₂, hx, hfok⟩ := bind_ok hs₁ hok hthis ho
  exact ⟨⟨hs₂, (Store.Extends.newInstance _ c).trans hx, rfl, rfl⟩, rfl, fr :: Γ, hfok⟩

/-- The initializer of a class is the function of that name in the store with the new instance. -/
theorem arity_of_constructs {c : ClassId} {f g : FunctionObject} {s' : RunState}
    (h : Constructs c s f g s') : s.store.arity (.cls c) = g.declaration.params.length := by
  obtain ⟨hi, hf, hg⟩ := h
  cases hi
  cases hg
  have hf' : s.store.initializer? c = some f := (Store.initializer?_newInstance ..).symm.trans hf
  simp only [Store.arity, hf']
  rfl

theorem CallOk.starts {c : Callable} {vs : List Value} {f : FunctionObject} {s' : RunState}
    (h : CallOk S s c vs) (hst : Starts vs c s f s') :
    StoreOk S s'.store ∧ s.store.Extends S.named s'.store ∧ s'.depth = s.depth ∧
      ∃ Γ, S.declared Γ f.declaration ∧
        Mirrors S anyName s'.store (Frame.ofCall f.declaration :: Γ) s'.scope := by
  have ho := h.call f s' hst
  have harity := h.arity
  cases hst with
  | function he =>
    obtain ⟨Γ, hf⟩ := h.callee f rfl
    have hlen : f.declaration.params.length = vs.length := by
      simp only [Store.arity, FunctionObject.arity, FunctionDecl.arity] at harity
      omega
    obtain ⟨hl, hm⟩ := enterFunction_ok h.store hf h.arguments hlen he ho
    exact ⟨hl.store, hl.grows, hl.depth, Γ, hf.declared, hm⟩
  | construct hc he =>
    obtain ⟨hl₁, -, Γ, hf⟩ := constructs_ok h.store hc (h.bind _ _ _ _ rfl hc)
    have hlen : f.declaration.params.length = vs.length := by
      rw [arity_of_constructs hc] at harity
      omega
    have hvs : ∀ v ∈ vs, ValueOk S _ v := fun v hv => (h.arguments v hv).mono hl₁.grows
    obtain ⟨hl₂, hm⟩ := enterFunction_ok hl₁.store hf hvs hlen he ho
    exact ⟨hl₂.store, hl₁.grows.trans hl₂.grows, hl₂.depth.trans hl₁.depth, Γ, hf.declared, hm⟩

theorem callFunction_safe {runBody : List Stmt → Run Completion} {f : FunctionObject}
    {vs : List Value} (hs : StoreOk S s.store) (hf : FunctionOk S s.store f Γ)
    (hvs : ∀ v ∈ vs, ValueOk S s.store v) (hlen : f.declaration.params.length = vs.length)
    (ho : ∀ scope s', Run.enterFunction f vs s = .ok scope s' →
      S.opened scope (.call f.declaration.id))
    (hbody : ∀ scope s', Run.enterFunction f vs s = .ok scope s' →
      Safe S { s' with scope := scope } (ReturnOk S)
        (runBody f.declaration.body { s' with scope := scope })) :
    Safe S s (fun v st => ValueOk S st v) (Run.callFunction runBody f vs s) := by
  unfold Run.callFunction
  have henter : Safe S s (fun _ _ => True) (Run.enterFunction f vs s) := by
    obtain ⟨hl, -⟩ := enterFunction_ok hs hf hvs hlen rfl (ho _ _ rfl)
    exact ⟨hl, trivial⟩
  refine henter.bind fun scope s₁ he hl₁ _ => ?_
  refine Safe.bind (hbody scope s₁ he).inScope fun c s₂ _ hl₂ hc => ?_
  cases hi : f.isInitializer with
  | true =>
    show Safe S s₂ _ ((Run.ask _ >>= _) s₂)
    rw [Run.ask_bind]
    simp only [Store.getAt, Store.scopeAt_zero]
    cases hv : s₂.store.read? f.closure "this" with
    | some v => exact .ok hl₂.store (hl₂.store.values _ _ v hv)
    | none =>
      refine .raised hl₂.store (faultOk_of_not_named (fun hcl => ?_) fun _ h => by cases h)
      have := (hf.mono (hl₁.trans hl₂).grows).isSome_this hi hcl
      simp [hv] at this
  | false =>
    cases c with
    | normal => exact .ok hl₂.store (.of_ne (by simp) (by simp))
    | returned v => exact .ok hl₂.store (hc v rfl)

theorem CallOk.invoke {runBody : List Stmt → Run Completion} {c : Callable} {vs : List Value}
    (h : CallOk S s c vs)
    (hbody : ∀ f s', Starts vs c s f s' →
      Safe S s' (ReturnOk S) (runBody f.declaration.body s')) :
    Safe S s (fun v st => ValueOk S st v) (Run.invoke runBody c vs s) := by
  have harity := h.arity
  cases c with
  | function f =>
    obtain ⟨Γ, hf⟩ := h.callee f rfl
    have hlen : f.declaration.params.length = vs.length := by
      simp only [Store.arity, FunctionObject.arity, FunctionDecl.arity] at harity
      omega
    exact callFunction_safe h.store hf h.arguments hlen
      (fun scope s' he => h.call f _ (.function he)) fun scope s' he => hbody f _ (.function he)
  | native n =>
    refine .ok h.store ?_
    rcases n.apply_known vs with hv | hv
    · exact h.arguments _ hv
    · exact .of_isPlain hv
  | cls c =>
    show Safe S s _ ((Run.alloc _ >>= _) s)
    rw [Run.alloc_bind]
    rw [Run.ask_bind]
    cases hf : (s.store.newInstance c).2.initializer? c with
    | none =>
      have hl : Later S s { s with store := (s.store.newInstance c).2 } :=
        .of_store (h.store.newInstance c) (.newInstance s.store c)
      exact Safe.later hl (.ok hl.store (.of_ne (by simp) (by simp)))
    | some f =>
      have hc : Constructs c s f _ _ := .mk rfl hf rfl
      obtain ⟨hl, -, Γ, hg⟩ := constructs_ok h.store hc (h.bind _ _ _ _ rfl hc)
      have hlen := (Int.ofNat.inj (harity.trans (arity_of_constructs hc))).symm
      have hvs : ∀ v ∈ vs, ValueOk S _ v := fun v hv => (h.arguments v hv).mono hl.grows
      show Safe S s _ ((Run.alloc _ >>= _) _)
      rw [Run.alloc_bind]
      refine Safe.later hl (Safe.bind (callFunction_safe hl.store hg hvs hlen
        (fun scope s' he => h.call _ _ (.construct hc he))
        fun scope s' he => hbody _ _ (.construct hc he)) fun v s' _ hl' _ => ?_)
      exact .ok hl'.store (.of_ne (by simp) (by simp))

/-- A call, whose arguments are known. -/
theorem call_safe {runBody : List Stmt → Run Completion} {paren : Token} {callee : Value}
    {vs : List Value} (hs : StoreOk S s.store) (hcallee : ValueOk S s.store callee)
    (hvs : ∀ v ∈ vs, ValueOk S s.store v)
    (h : ∀ c, s.store.callable? callee = some c → vs.length = s.store.arity c →
      s.depth < S.context.maxDepth →
      (∀ f s', Starts vs c { s with depth := s.depth + 1 } f s' →
        S.opened s'.scope (.call f.declaration.id)) ∧
      (∀ id f g s', c = .cls id → Constructs id { s with depth := s.depth + 1 } f g s' →
        S.opened g.closure (.bind f.declaration.id)) ∧
      (∀ f s', Starts vs c { s with depth := s.depth + 1 } f s' →
        Safe S s' (ReturnOk S) (runBody f.declaration.body s'))) :
    Safe S s (fun v st => ValueOk S st v) (Run.call S.context runBody paren callee vs s) := by
  rcases Run.call_cases S.context runBody paren callee vs s with
    ⟨e, he⟩ | ⟨c, hc, harity, hdepth, hgoes⟩
  · rw [he]
    exact .error hs
  · obtain ⟨hcall, hbind, hbody⟩ := h c hc harity hdepth
    rw [hgoes]
    refine Safe.deeper (CallOk.invoke ⟨hs, ?_, hvs, harity, hcall, hbind⟩ hbody)
    rintro f rfl
    exact hcallee.callable hc

end Lox

import Lox.Proofs.Run.Objects

/-!
# What binds names

A scope gains a name in few ways (`Introduces`): by a declaration that is executed in it; when it is
made, as the scope of a call with its parameters or as that of `this` or `super`; and by an assignment
that leads to it although it does not bind the name.  Nothing else that a run does adds a name to a
scope, whatever programs it comes from and however it ends (`adds_only`).
-/

namespace Lox

/-- What one store binds and another does not is allowed. -/
def Store.AddsOnly (allowed : ScopeId → String → Prop) (st st' : Store) : Prop :=
  ∀ e x, st'.binds e x → st.binds e x ∨ allowed e x

/-- A name gets bound in a scope while a part is run in a state, with so much fuel left for the parts
it runs. -/
inductive Introduces (ctx : Context) (n : Nat) : Part → RunState → ScopeId → String → Prop
  | declared {t s x} (h : t.declares? = some x) : Introduces ctx n t s s.scope x
  | parameter {id callee paren arguments s c vs s₁ f s₂ x}
      (ha : Applies ctx n callee arguments s c vs s₁) (hs : Starts vs c s₁ f s₂)
      (hx : x ∈ f.declaration.params.map (·.lexeme)) :
      Introduces ctx n (.expr (.call id callee paren arguments)) s s₂.scope x
  | this {t s e id} (h : Opens ctx n t s e (.bind id)) : Introduces ctx n t s e "this"
  | super {t s e id} (h : Opens ctx n t s e (.super id)) : Introduces ctx n t s e "super"

/-- An assignment leads to a scope that does not bind the name, and so creates a binding. -/
inductive Creates (ctx : Context) (n : Nat) : Part → RunState → ScopeId → String → Prop
  | mk {id target equals value s v s₁ e} (hv : evaluate ctx n value s = .ok v s₁)
      (he : Run.assignedScope ctx id (target.assignedName equals) s₁ = .ok e s₁)
      (hnew : s₁.store.binds e (target.assignedName equals).lexeme = false) :
      Creates ctx n (.expr (.assign id target equals value)) s e
        (target.assignedName equals).lexeme

namespace Store.AddsOnly

variable {A : ScopeId → String → Prop} {st st' st'' : Store}

theorem refl (st : Store) : st.AddsOnly A st := fun _ _ h => .inl h

theorem trans (h : st.AddsOnly A st') (h' : st'.AddsOnly A st'') : st.AddsOnly A st'' := by
  intro e x hx
  rcases h' e x hx with hx | hx
  · exact h e x hx
  · exact .inr hx

/-- Binding a name that is bound already, or is allowed. -/
theorem define {e : ScopeId} {x : String} (v : Value) (h : st.binds e x ∨ A e x) :
    st.AddsOnly A (st.define e x v) := by
  intro e' y hy
  rw [binds, read?_define] at hy
  split at hy
  · rename_i hc
    rw [hc.1, hc.2.1]
    exact h
  · exact .inl hy

theorem newScope {scope : Scope}
    (h : ∀ (x : String), (scope.values[x]?).isSome → A (st.newScope scope).1 x) :
    st.AddsOnly A (st.newScope scope).2 := by
  intro e x hx
  rw [binds, read?_newScope] at hx
  split at hx
  · rename_i he
    exact .inr (he ▸ h x hx)
  · exact .inl hx

end Store.AddsOnly

/-! ### Runs that add what is allowed -/

variable {A : ScopeId → String → Prop} {α β : Type} {s s' : RunState}

/-- The names that are added from one state to another are allowed, and the scope is the same. -/
structure AddsTo (A : ScopeId → String → Prop) (s s' : RunState) : Prop where
  names : s.store.AddsOnly A s'.store
  scope : s'.scope = s.scope

/-- However a run that started in `s` ends, it adds only names that are allowed. -/
def Adds (A : ScopeId → String → Prop) (s : RunState) : Outcome RunState α → Prop
  | .ok _ s' => AddsTo A s s'
  | .raised _ s' => AddsTo A s s'
  | .outOfFuel => True

theorem AddsTo.refl (s : RunState) : AddsTo A s s := ⟨.refl s.store, rfl⟩

/-- A state with another store. -/
theorem AddsTo.of_store {st : Store} (h : s.store.AddsOnly A st) : AddsTo A s { s with store := st } :=
  ⟨h, rfl⟩

theorem AddsTo.trans {s'' : RunState} (h : AddsTo A s s') (h' : AddsTo A s' s'') : AddsTo A s s'' :=
  ⟨h.names.trans h'.names, h'.scope.trans h.scope⟩

namespace Adds

theorem ok (a : α) : Adds A s (.ok a s) := .refl s

theorem raised (fault : Fault) : Adds A s (.raised fault s : Outcome RunState α) := .refl s

theorem of_ok {o : Outcome RunState α} {a : α} (h : Adds A s o) (ho : o = .ok a s') :
    AddsTo A s s' := by
  subst ho
  exact h

theorem later {o : Outcome RunState α} (hs : AddsTo A s s') (h : Adds A s' o) : Adds A s o := by
  cases o with
  | ok a s'' => exact hs.trans h
  | raised fault s'' => exact hs.trans h
  | outOfFuel => trivial

theorem bind {x : Run α} {f : α → Run β} (hx : Adds A s (x s))
    (hf : ∀ a s', x s = .ok a s' → s'.scope = s.scope → Adds A s' (f a s')) :
    Adds A s ((x >>= f) s) := by
  rw [Action.bind_apply]
  cases h : x s with
  | ok a s' =>
    rw [h] at hx
    exact (hf a s' h hx.scope).later hx
  | raised fault s' =>
    rw [h] at hx
    exact hx
  | outOfFuel => trivial

theorem inScope {x : Run α} {e : ScopeId} (h : Adds A { s with scope := e } (x { s with scope := e })) :
    Adds A s (Run.inScope e x s) := by
  unfold Run.inScope
  cases hx : x { s with scope := e } with
  | outOfFuel => trivial
  | _ =>
    rw [hx] at h
    exact ⟨h.names, rfl⟩

theorem deeper {x : Run α}
    (h : Adds A { s with depth := s.depth + 1 } (x { s with depth := s.depth + 1 })) :
    Adds A s (Run.deeper x s) := by
  unfold Run.deeper
  cases hx : x { s with depth := s.depth + 1 } with
  | outOfFuel => trivial
  | _ =>
    rw [hx] at h
    exact ⟨h.names, h.scope⟩

theorem ofScope (x : Except ScopeFault α) : Adds A s (Run.ofScope x s) := by
  cases x with
  | ok a => exact .ok a
  | error fault => exact .raised _

theorem ofExcept (x : Except Fault α) : Adds A s (Action.ofExcept x s : Outcome RunState α) := by
  cases x with
  | ok a => exact .ok a
  | error fault => exact .raised _

/-! ### Lists -/

theorem collect {f : α → Run β} {as : List α}
    (h : ∀ (i : Nat) a bs s', as[i]? = some a → Action.collect f (as.take i) s = .ok bs s' →
      Adds A s' (f a s')) (k : Nat) : Adds A s (Action.collect f (as.take k) s) := by
  refine List.take_induction (M := fun l => Adds A s (Action.collect f l s)) (.ok [])
    (fun i a hi hbefore => ?_) k
  rw [Action.collect_concat]
  exact hbefore.bind fun bs s₁ hbs _ => (h i a bs s₁ hi hbs).bind fun b s₂ _ _ => .ok _

theorem untilReturn {f : α → Run Completion} {as : List α}
    (h : ∀ (i : Nat) a s', as[i]? = some a → Action.untilReturn f (as.take i) s = .ok .normal s' →
      Adds A s' (f a s')) (k : Nat) : Adds A s (Action.untilReturn f (as.take k) s) := by
  refine List.take_induction (M := fun l => Adds A s (Action.untilReturn f l s)) (.ok _)
    (fun i a hi hbefore => ?_) k
  rw [Action.untilReturn_concat]
  refine hbefore.bind fun c s₁ hc _ => ?_
  cases c with
  | normal => exact h i a s₁ hi hc
  | returned v => exact .ok _

theorem throughout {f : α → Run Completion} {as : List α}
    (h : ∀ (i : Nat) a s', as[i]? = some a → Action.throughout f (as.take i) s = .ok () s' →
      Adds A s' (f a s')) (k : Nat) : Adds A s (Action.throughout f (as.take k) s) := by
  refine List.take_induction (M := fun l => Adds A s (Action.throughout f l s)) (.ok ())
    (fun i a hi hbefore => ?_) k
  rw [Action.throughout_concat]
  exact hbefore.bind fun _ s₁ hs _ => (h i a s₁ hi hs).bind fun c s₂ _ _ => .ok ()

end Adds

/-! ### The operations of a run -/

/-- A scope that is made with one name binds no other. -/
theorem eq_of_isSome_singleton {x y : String} {v : Value}
    (h : (({(y, v)} : Bindings)[x]?).isSome) : x = y := by
  rw [show ({(y, v)} : Bindings) = (∅ : Bindings).insert y v from rfl, isSome_singleton] at h
  exact of_decide_eq_true h

/-- Only the scope made for `this` gains a name when a method is bound. -/
theorem addsOnly_bind {st : Store} {f : FunctionObject} {this : Value}
    (h : A (st.bind f this).1.closure "this") : st.AddsOnly A (st.bind f this).2 := by
  refine .newScope fun x hx => ?_
  rw [eq_of_isSome_singleton hx]
  exact h

theorem adds_bindValue {f : FunctionObject} {this : Value}
    (h : A (s.store.bind f this).1.closure "this") :
    Adds A s (Run.alloc (·.bindValue f this) s) := ⟨addsOnly_bind h, rfl⟩

theorem adds_lookUp (ctx : Context) (id : NodeId) (name : Token) :
    Adds A s (Run.lookUp ctx id name s) := by
  cases hd : ctx.table[id]? with
  | some d =>
    rw [Run.lookUp_of_local hd]
    exact .ofScope _
  | none =>
    cases hv : s.store.get? ctx.globals name.lexeme with
    | some v =>
      rw [Run.lookUp_of_global hd hv]
      exact .ok v
    | none =>
      rw [Run.lookUp_of_undefined hd hv]
      exact .raised _

/-- The scope an assignment leads to is found without a change of the state. -/
theorem Run.assignedScope_cases (ctx : Context) (id : NodeId) (name : Token) (s : RunState) :
    (∃ e, Run.assignedScope ctx id name s = .ok e s) ∨
      ∃ fault, Run.assignedScope ctx id name s = .raised fault s := by
  cases hd : ctx.table[id]? with
  | some d =>
    rw [Run.assignedScope_of_local hd]
    cases s.store.scopeAt s.scope d with
    | ok e => exact .inl ⟨e, rfl⟩
    | error fault => exact .inr ⟨_, rfl⟩
  | none =>
    cases he : s.store.owner? ctx.globals name.lexeme with
    | some e => exact .inl ⟨e, Run.assignedScope_of_global hd he⟩
    | none => exact .inr ⟨_, Run.assignedScope_of_undefined hd he⟩

/-- An assignment adds a name only if it leads to a scope that does not bind it. -/
theorem adds_assign {ctx : Context} {id : NodeId} {name : Token} (v : Value)
    (h : ∀ e, Run.assignedScope ctx id name s = .ok e s → s.store.binds e name.lexeme = false →
      A e name.lexeme) : Adds A s (Run.assign ctx id name v s) := by
  unfold Run.assign
  rcases Run.assignedScope_cases ctx id name s with ⟨e, he⟩ | ⟨fault, he⟩
  · rw [Action.bind_apply, he]
    refine ⟨Store.AddsOnly.define v ?_, rfl⟩
    cases hb : s.store.binds e name.lexeme with
    | true => exact .inl rfl
    | false => exact .inr (h e he hb)
  · rw [Action.bind_apply, he]
    exact .raised _

theorem adds_getProperty {i : InstanceId} {name : Token}
    (h : ∀ f, s.store.member? i name.lexeme = some (.method f) →
      A (s.store.bind f (.inst i)).1.closure "this") : Adds A s (Run.getProperty i name s) := by
  unfold Run.getProperty
  rw [Run.ask_bind]
  cases hm : s.store.member? i name.lexeme with
  | none => exact .raised _
  | some m =>
    cases m with
    | field v => exact .ok v
    | method f => exact adds_bindValue (h f hm)

theorem adds_superMethod {ctx : Context} {id : NodeId} {method : Token}
    (h : ∀ d c this f, ctx.table[id]? = some d →
      s.store.getAt s.scope d "super" = .ok (.cls c) →
      s.store.getAt s.scope ((d : Int) - 1) "this" = .ok this →
      s.store.method? c method.lexeme = some f → A (s.store.bind f this).1.closure "this") :
    Adds A s (Run.superMethod ctx id method s) := by
  unfold Run.superMethod
  cases hd : ctx.table[id]? with
  | none => exact .raised _
  | some d =>
    show Adds A s ((Run.currentScope >>= _) s)
    rw [Run.currentScope_bind, Run.ask_bind]
    cases hsuper : s.store.getAt s.scope d "super" with
    | error fault => exact .raised _
    | ok superclass =>
      rw [Run.ofScope_ok_bind, Run.ask_bind]
      cases hthis : s.store.getAt s.scope ((d : Int) - 1) "this" with
      | error fault => exact .raised _
      | ok this =>
        rw [Run.ofScope_ok_bind]
        cases superclass with
        | cls c =>
          show Adds A s ((Run.ask _ >>= _) s)
          rw [Run.ask_bind]
          cases hf : s.store.method? c method.lexeme with
          | some f => exact adds_bindValue (h d c this f hd hsuper hthis hf)
          | none => exact .raised _
        | _ => exact .raised _

/-! ### Calls -/

section Calls

variable {runBody : List Stmt → Run Completion} {vs : List Value}

theorem mem_params_of_isSome {f : FunctionObject} {x : String}
    (h : ((Run.callScope f vs).values[x]?).isSome) : x ∈ f.declaration.params.map (·.lexeme) := by
  obtain ⟨v, hv⟩ := Option.isSome_iff_exists.1 h
  exact (Run.callScope_cases hv).1

/-- The scope of a call gains no names but the parameters. -/
theorem adds_enterFunction {f : FunctionObject}
    (h : ∀ scope s', Run.enterFunction f vs s = .ok scope s' →
      ∀ x ∈ f.declaration.params.map (·.lexeme), A scope x) :
    Adds A s (Run.enterFunction f vs s) := by
  exact ⟨.newScope fun x hx => h _ _ rfl x (mem_params_of_isSome hx), rfl⟩

theorem adds_callFunction {f : FunctionObject}
    (henter : ∀ scope s', Run.enterFunction f vs s = .ok scope s' →
      ∀ x ∈ f.declaration.params.map (·.lexeme), A scope x)
    (hbody : ∀ scope s', Run.enterFunction f vs s = .ok scope s' →
      Adds A { s' with scope := scope } (runBody f.declaration.body { s' with scope := scope })) :
    Adds A s (Run.callFunction runBody f vs s) := by
  unfold Run.callFunction
  refine (adds_enterFunction henter).bind fun scope s₁ he _ => ?_
  refine Adds.bind (.inScope (hbody scope s₁ he)) fun c s₂ _ _ => ?_
  cases f.isInitializer with
  | true => exact .ofScope _
  | false =>
    cases c with
    | normal => exact .ok _
    | returned v => exact .ok v

theorem adds_invoke {c : Callable}
    (henter : ∀ f s', Starts vs c s f s' → ∀ x ∈ f.declaration.params.map (·.lexeme), A s'.scope x)
    (hbind : ∀ id f g s', c = .cls id → Constructs id s f g s' → A g.closure "this")
    (hbody : ∀ f s', Starts vs c s f s' → Adds A s' (runBody f.declaration.body s')) :
    Adds A s (Run.invoke runBody c vs s) := by
  cases c with
  | native n => exact .ok _
  | function f =>
    exact adds_callFunction (fun scope s' he => henter f _ (.function he))
      fun scope s' he => hbody f _ (.function he)
  | cls c =>
    show Adds A s ((Run.alloc _ >>= _) s)
    rw [Run.alloc_bind, Run.ask_bind]
    cases hf : (s.store.newInstance c).2.initializer? c with
    | none => exact ⟨.refl s.store, rfl⟩
    | some f =>
      have hc : Constructs c s f _ _ := .mk rfl hf rfl
      show Adds A s ((Run.alloc _ >>= _) _)
      rw [Run.alloc_bind]
      have hbound : s.store.AddsOnly A ((s.store.newInstance c).2.bind f
          (.inst (s.store.newInstance c).1)).2 :=
        addsOnly_bind (hbind c _ _ _ rfl hc)
      exact Adds.later (.of_store hbound)
        (Adds.bind (adds_callFunction (fun scope s' he => henter _ _ (.construct hc he))
          fun scope s' he => hbody _ _ (.construct hc he)) fun v s' _ _ => .ok _)

/-- Up to the body of a function that is called, only its parameters and `this` are added. -/
theorem Starts.addsOnly {c : Callable} {f : FunctionObject} (hs : Starts vs c s f s')
    (henter : ∀ x ∈ f.declaration.params.map (·.lexeme), A s'.scope x)
    (hbind : ∀ id f g s', c = .cls id → Constructs id s f g s' → A g.closure "this") :
    s.store.AddsOnly A s'.store := by
  cases hs with
  | function he =>
    cases he
    exact .newScope fun x hx => henter x (mem_params_of_isSome hx)
  | construct hc he =>
    have hthis := hbind _ _ _ _ rfl hc
    cases hc with
    | mk hi hf hg =>
      cases hi
      cases hg
      cases he
      exact (addsOnly_bind hthis).trans (.newScope fun x hx => henter x (mem_params_of_isSome hx))

end Calls

/-! ### Declarations -/

theorem adds_methodTable (e : ScopeId) (table : Std.ExtTreeMap String FunctionId)
    (fs : List FunctionDecl) : Adds A s (Run.methodTable e table fs s) := by
  induction fs generalizing table s with
  | nil => exact .ok _
  | cons f fs ih =>
    have hnew : Adds A s (Run.closeOver e (f.name.lexeme = FunctionDecl.initializerName) f s) :=
      ⟨.refl s.store, rfl⟩
    exact hnew.bind fun id s' _ _ => ih _

theorem adds_declareMethods (name : Token) (superclass : Option ClassId)
    (methods : List FunctionDecl) (scope e : ScopeId) :
    Adds A s (Run.declareMethods name superclass methods scope e s) := by
  refine (adds_methodTable e ∅ methods).bind fun table s₁ _ _ => ?_
  rw [Run.alloc_bind, Run.ask_bind]
  cases ho : (s₁.store.newClass ⟨name.lexeme, superclass, table⟩).2.owner? scope name.lexeme with
  | some owner => exact ⟨.define _ (.inl (Store.isSome_of_owner? ho)), rfl⟩
  | none => exact ⟨.refl s₁.store, rfl⟩

theorem adds_declareClass {name : Token} {superclass : Option ClassId} {methods : List FunctionDecl}
    (hname : A s.scope name.lexeme)
    (hsuper : ∀ c scope s', superclass = some c →
      Run.alloc (·.newScope { enclosing := some s.scope, values := {("super", .cls c)} })
        { s with store := s.store.define s.scope name.lexeme .nil } = .ok scope s' →
      A scope "super") : Adds A s (Run.declareClass name superclass methods s) := by
  have hreserved : s.store.AddsOnly A (s.store.define s.scope name.lexeme .nil) :=
    .define _ (.inr hname)
  cases superclass with
  | none =>
    rw [Run.declareClass_none, Run.define_bind, Run.currentScope_bind]
    exact Adds.later (.of_store hreserved) (adds_declareMethods _ _ _ _ _)
  | some c =>
    rw [Run.declareClass_some, Run.define_bind, Run.currentScope_bind, Run.alloc_bind]
    let st := s.store.define s.scope name.lexeme .nil
    have hnew : st.AddsOnly A
        (st.newScope { enclosing := some s.scope, values := {("super", .cls c)} }).2 := by
      refine .newScope fun x hx => ?_
      rw [eq_of_isSome_singleton hx]
      exact hsuper c _ _ rfl rfl
    exact Adds.later (.of_store (hreserved.trans hnew)) (adds_declareMethods _ _ _ _ _)

/-! ### Whole runs -/

section Runs

variable (A) (ctx : Context)

/-- All names that get bound while a part is run in a state are allowed. -/
def Allows (n : Nat) (t : Part) (s : RunState) : Prop :=
  ∀ m u s' e x, Visits ctx n t s (m + 1) u s' →
    Introduces ctx m u s' e x ∨ Creates ctx m u s' e x → A e x

/-- Every run with so much fuel adds only names that are allowed, if all that get bound are. -/
structure AddsAllowed (n : Nat) : Prop where
  expr : ∀ {e s}, Allows A ctx n (.expr e) s → Adds A s (evaluate ctx n e s)
  stmt : ∀ {st s}, Allows A ctx n (.stmt st) s → Adds A s (execute ctx n st s)

variable {A ctx} {n : Nat} {t u : Part}

theorem Allows.here (h : Allows A ctx (n + 1) t s) {e : ScopeId} {x : String}
    (hi : Introduces ctx n t s e x) : A e x := h n t s e x .here (.inl hi)

theorem Allows.call (h : Allows A ctx (n + 1) t s) (hc : Calls ctx n t s u s') :
    Allows A ctx n u s' := fun m v s'' e x hv hi => h m v s'' e x (.step hc hv) hi

theorem adds_call_expr (ih : AddsAllowed A ctx n) {id : NodeId} {callee : Expr} {paren : Token}
    {arguments : List Expr} (h : Allows A ctx (n + 1) (.expr (.call id callee paren arguments)) s) :
    Adds A s (evaluate ctx (n + 1) (.call id callee paren arguments) s) := by
  refine (ih.expr (h.call .callee)).bind fun f s₁ hf _ => ?_
  have hargs : Adds A s₁ (Action.collect (evaluate ctx n) (arguments.take arguments.length) s₁) :=
    .collect (fun i e vs s' hi hvs => ih.expr (h.call (.argument hf hvs hi))) _
  rw [List.take_length] at hargs
  refine hargs.bind fun vs s₂ hvs _ => ?_
  rcases Run.call_cases ctx (Action.untilReturn (execute ctx n)) paren f vs s₂ with
    ⟨e, he⟩ | ⟨c, hc, harity, hdepth, hcall⟩
  · rw [he]
    exact .raised _
  · have ha : Applies ctx n callee arguments s c vs _ := .mk hf hvs hc harity hdepth
    rw [hcall]
    refine .deeper (adds_invoke (s := { s₂ with depth := s₂.depth + 1 }) ?_ ?_ ?_)
    · exact fun g s' hs x hx => h.here (.parameter ha hs hx)
    · rintro id' g g' s' rfl hcon
      exact h.here (.this (.construct ha hcon))
    · intro g s' hs
      have hbody : Adds A s' (Action.untilReturn (execute ctx n)
          (g.declaration.body.take g.declaration.body.length) s') :=
        .untilReturn (fun i st s'' hi hb => ih.stmt (h.call (.body ha hs hb hi))) _
      rwa [List.take_length] at hbody

/-- One step of the induction, for expressions. -/
theorem adds_evaluate (ih : AddsAllowed A ctx n) {e : Expr}
    (h : Allows A ctx (n + 1) (.expr e) s) : Adds A s (evaluate ctx (n + 1) e s) := by
  cases e with
  | literal id value => exact .ofExcept _
  | var ref => exact adds_lookUp ctx ref.id ref.name
  | assign id target equals value =>
    refine (ih.expr (h.call .assigned)).bind fun v s₁ hv hscope => ?_
    refine Adds.bind (adds_assign v fun e he hnew => ?_) fun _ s₂ _ _ => .ok v
    exact h n _ s e _ .here (.inr (.mk hv he hnew))
  | binary id left operator right =>
    refine (ih.expr (h.call .binaryLeft)).bind fun l s₁ hl _ => ?_
    exact (ih.expr (h.call (.binaryRight hl))).bind fun r s₂ _ _ => .ofExcept _
  | logical id left operator right =>
    refine (ih.expr (h.call .logicalLeft)).bind fun l s₁ hl _ => ?_
    cases hd : operator.decidesLogical l with
    | true => exact .ok l
    | false => exact ih.expr (h.call (.logicalRight hl hd))
  | unary id operator operand =>
    exact (ih.expr (h.call .operand)).bind fun v s₁ _ _ => .ofExcept _
  | grouping id inner => exact ih.expr (h.call .inner)
  | call id callee paren arguments => exact adds_call_expr ih h
  | get id object name =>
    refine (ih.expr (h.call .getObject)).bind fun v s₁ hv hscope => ?_
    cases v with
    | inst i => exact adds_getProperty fun f hf => h.here (.this (.get hv hf rfl))
    | _ => exact .raised _
  | set id object name value =>
    refine (ih.expr (h.call .setObject)).bind fun v s₁ hv hscope => ?_
    cases v with
    | inst i =>
      exact (ih.expr (h.call (.setValue hv))).bind fun w s₂ _ _ => ⟨.refl s₂.store, rfl⟩
    | _ => exact .raised _
  | this id keyword => exact adds_lookUp ctx id keyword
  | super id keyword method =>
    exact adds_superMethod fun d c this f hd hc ht hf => h.here (.this (.super hd hc ht hf))

/-- One step of the induction, for statements. -/
theorem adds_execute (ih : AddsAllowed A ctx n) {st : Stmt}
    (h : Allows A ctx (n + 1) (.stmt st) s) : Adds A s (execute ctx (n + 1) st s) := by
  have hdefine : ∀ {x v} {s' : RunState}, s'.scope = s.scope → (Part.stmt st).declares? = some x →
      Adds A s' (Run.define x v s') := by
    intro x v s' hs hx
    exact ⟨.define v (.inr (hs ▸ h.here (.declared hx))), rfl⟩
  cases st with
  | block id body =>
    let inside : RunState := { s with
      store := (s.store.newScope { enclosing := some s.scope }).2
      scope := (s.store.newScope { enclosing := some s.scope }).1 }
    have hbody : Adds A inside (Action.untilReturn (execute ctx n) (body.take body.length) inside) :=
      .untilReturn (fun i st s' hi hb => ih.stmt (h.call (.block rfl hb hi))) _
    rw [List.take_length] at hbody
    have hnew : s.store.AddsOnly A (s.store.newScope { enclosing := some s.scope }).2 :=
      .newScope fun x hx => by simp at hx
    exact Adds.later (.of_store hnew) (.inScope hbody)
  | expression id e => exact (ih.expr (h.call .expression)).bind fun v s₁ _ _ => .ok _
  | print id e =>
    exact (ih.expr (h.call .print)).bind fun v s₁ _ _ => ⟨.refl s₁.store, rfl⟩
  | varDecl id name initializer =>
    cases initializer with
    | none => exact Adds.bind (hdefine rfl rfl) fun _ s₁ _ _ => .ok _
    | some e =>
      refine (ih.expr (h.call .initializer)).bind fun v s₁ hv hscope => ?_
      exact Adds.bind (hdefine hscope rfl) fun _ s₂ _ _ => .ok _
  | branch id condition thenBranch elseBranch =>
    refine (ih.expr (h.call .branchCondition)).bind fun v s₁ hv hscope => ?_
    cases ht : v.truthy with
    | true => exact ih.stmt (h.call (.thenBranch hv ht))
    | false =>
      cases elseBranch with
      | none => exact .ok _
      | some e => exact ih.stmt (h.call (.elseBranch hv ht))
  | loop id condition body =>
    refine (ih.expr (h.call .loopCondition)).bind fun v s₁ hv hscope => ?_
    cases ht : v.truthy with
    | true =>
      refine (ih.stmt (h.call (.loopBody hv ht))).bind fun c s₂ hb _ => ?_
      cases c with
      | normal => exact ih.stmt (h.call (.loopAgain hv ht hb))
      | returned w => exact .ok _
    | false => exact .ok _
  | function f =>
    refine Adds.bind (x := do
      let id ← Run.closeOver s.scope false f
      Run.define f.name.lexeme (.function id)) ?_ fun _ s₁ _ _ => .ok _
    have hnew : Adds A s (Run.closeOver s.scope false f s) := ⟨.refl s.store, rfl⟩
    exact hnew.bind fun id s₁ _ hscope => hdefine hscope rfl
  | ret id keyword value =>
    cases value with
    | none => exact .ok _
    | some e => exact (ih.expr (h.call .returned)).bind fun v s₁ _ _ => .ok _
  | classDecl id name superclass methods =>
    cases superclass with
    | none =>
      exact Adds.bind (adds_declareClass (h.here (.declared rfl)) fun c scope s' hc => by cases hc)
        fun _ s₁ _ _ => .ok _
    | some ref =>
      refine (ih.expr (h.call .superclass)).bind fun v s₁ hv hscope => ?_
      cases v with
      | cls c =>
        show Adds A s₁ ((Run.declareClass name (some c) methods >>= _) s₁)
        refine Adds.bind (adds_declareClass ?_ ?_) fun _ s₂ _ _ => .ok _
        · rw [hscope]
          exact h.here (.declared rfl)
        · rintro c' scope s' hc hs
          cases hc
          exact h.here (.super (.subclass hv rfl hs))
      | _ => exact .raised _

/-- Whatever is run, in whatever state, only names that get bound in one of these ways are added. -/
theorem adds_only (n : Nat) : AddsAllowed A ctx n := by
  induction n with
  | zero => exact ⟨fun _ => trivial, fun _ => trivial⟩
  | succ n ih => exact ⟨adds_evaluate ih, adds_execute ih⟩

/-! ### What is reached -/

theorem Allows.evaluated {e : Expr} {v : Value} (h : Allows A ctx n (.expr e) s)
    (he : evaluate ctx n e s = .ok v s') : s.store.AddsOnly A s'.store :=
  (((adds_only n).expr h).of_ok he).names

theorem Allows.executed {st : Stmt} {c : Completion} (h : Allows A ctx n (.stmt st) s)
    (he : execute ctx n st s = .ok c s') : s.store.AddsOnly A s'.store :=
  (((adds_only n).stmt h).of_ok he).names

section

variable {id : NodeId} {callee : Expr} {paren : Token} {arguments : List Expr}

theorem Allows.collected (h : Allows A ctx (n + 1) (.expr (.call id callee paren arguments)) s)
    {f : Value} {vs : List Value} {s₁ s₂ : RunState} (hf : evaluate ctx n callee s = .ok f s₁) (k : Nat)
    (hvs : Action.collect (evaluate ctx n) (arguments.take k) s₁ = .ok vs s₂) :
    s.store.AddsOnly A s₂.store := by
  have hargs : Adds A s₁ (Action.collect (evaluate ctx n) (arguments.take k) s₁) :=
    .collect (fun i e vs s' hi hvs => (adds_only n).expr (h.call (.argument hf hvs hi))) k
  exact ((h.call .callee).evaluated hf).trans (hargs.of_ok hvs).names

theorem Allows.started (h : Allows A ctx (n + 1) (.expr (.call id callee paren arguments)) s)
    {c : Callable} {vs : List Value} {f : FunctionObject} {s₁ s₂ : RunState}
    (ha : Applies ctx n callee arguments s c vs s₁) (hs : Starts vs c s₁ f s₂) :
    s.store.AddsOnly A s₂.store := by
  have happlied : s.store.AddsOnly A s₁.store := by
    cases ha with
    | @mk _ _ _ _ s₂ hf hvs =>
      rw [← List.take_length (l := arguments)] at hvs
      show s.store.AddsOnly A s₂.store
      exact h.collected hf _ hvs
  refine happlied.trans (hs.addsOnly (fun x hx => h.here (.parameter ha hs hx)) ?_)
  rintro id' g g' s' rfl hc
  exact h.here (.this (.construct ha hc))

end

/-- Up to a node that is called only names that are allowed are added. -/
theorem Allows.called (h : Allows A ctx (n + 1) t s) (hc : Calls ctx n t s u s') :
    s.store.AddsOnly A s'.store := by
  cases hc with
  | binaryRight hl => exact (h.call .binaryLeft).evaluated hl
  | logicalRight hl => exact (h.call .logicalLeft).evaluated hl
  | argument hf hvs => exact h.collected hf _ hvs
  | @body _ _ _ _ _ c vs s₁ f s₂ _ i st ha hs hb hi =>
    have hbody : Adds A s₂ (Action.untilReturn (execute ctx n) (f.declaration.body.take i) s₂) :=
      .untilReturn (fun j st s'' hj hb => (adds_only n).stmt (h.call (.body ha hs hb hj))) i
    exact (h.started ha hs).trans (hbody.of_ok hb).names
  | setValue hobj => exact (h.call .setObject).evaluated hobj
  | @block id body _ scope s₁ _ i st hscope hb hi =>
    have hbody : Adds A { s₁ with scope := scope }
        (Action.untilReturn (execute ctx n) (body.take i) { s₁ with scope := scope }) :=
      .untilReturn (fun j st s'' hj hb => (adds_only n).stmt (h.call (.block hscope hb hj))) i
    have hinside := (hbody.of_ok hb).names
    cases hscope
    exact Store.AddsOnly.trans (.newScope fun x hx => by simp at hx) hinside
  | thenBranch hv => exact (h.call .branchCondition).evaluated hv
  | elseBranch hv => exact (h.call .branchCondition).evaluated hv
  | loopBody hv => exact (h.call .loopCondition).evaluated hv
  | loopAgain hv ht hb =>
    exact ((h.call .loopCondition).evaluated hv).trans ((h.call (.loopBody hv ht)).executed hb)
  | _ => exact .refl _

/-- Up to any node that is visited only names that are allowed are added. -/
theorem Allows.visited {m : Nat} (h : Allows A ctx n t s) (hv : Visits ctx n t s m u s') :
    s.store.AddsOnly A s'.store := by
  induction hv with
  | here => exact .refl _
  | step hc _ ih => exact (h.called hc).trans (ih (h.call hc))

end Runs

end Lox

import Lox.Proofs.Run.Balance
import Lox.Proofs.Run.Grounded

/-!
# Runs on grounded stores

A run that starts in a scope of a grounded store, whatever program and table it comes from, stays on
grounded stores, and all that it hands on is there (`runs_grounded`).  So every node that is visited is run
in a scope that is there (`Visits.grounded`), and the store is grounded before and after each change
(`Changes.grounded`).
-/

namespace Lox

variable {g : ScopeId} {α β : Type} {s s' s'' : RunState} {st st' : Store}

/-- A run is in a scope of a grounded store. -/
structure RunState.Grounded (g : ScopeId) (s : RunState) : Prop where
  store : s.store.Grounded g
  scope : (s.store.scope? s.scope).isSome

/-- From one state of a run to a later one in the same scope, with a grounded store. -/
structure Ahead (g : ScopeId) (s s' : RunState) : Prop where
  store : s'.store.Grounded g
  persists : s.store.PersistsIn s'.store
  scope : s'.scope = s.scope

/-- However a run that started in `s` ends, the store is grounded, and the result is as claimed. -/
def Grounds (g : ScopeId) (s : RunState) (Q : α → Store → Prop) : Outcome RunState α → Prop
  | .ok a s' => Ahead g s s' ∧ Q a s'.store
  | .raised _ s' => Ahead g s s'
  | .outOfFuel => True

theorem Ahead.refl (h : s.store.Grounded g) : Ahead g s s := ⟨h, .refl _, rfl⟩

/-- A state with another store. -/
theorem Ahead.of_store (h : st.Grounded g) (hp : s.store.PersistsIn st) :
    Ahead g s { s with store := st } := ⟨h, hp, rfl⟩

theorem Ahead.trans (h : Ahead g s s') (h' : Ahead g s' s'') : Ahead g s s'' :=
  ⟨h'.store, h.persists.trans h'.persists, h'.scope.trans h.scope⟩

theorem Ahead.grounded (h : Ahead g s s') (hs : s.Grounded g) : s'.Grounded g where
  store := h.store
  scope := by
    rw [h.scope]
    exact h.persists.isSome_scope? hs.scope

namespace Grounds

variable {Q : α → Store → Prop} {R : β → Store → Prop}

theorem ok {a : α} (h : s.store.Grounded g) (ha : Q a s.store) : Grounds g s Q (.ok a s) :=
  ⟨.refl h, ha⟩

theorem raised (h : s.store.Grounded g) (fault : Fault) :
    Grounds g s Q (.raised fault s : Outcome RunState α) := .refl h

theorem of_ok {o : Outcome RunState α} {a : α} (h : Grounds g s Q o) (ho : o = .ok a s') :
    Ahead g s s' ∧ Q a s'.store := by
  subst ho
  exact h

theorem of_state? {o : Outcome RunState α} (h : Grounds g s Q o) (ho : o.state? = some s') :
    Ahead g s s' := by
  cases o with
  | ok a s'' =>
    cases ho
    exact h.1
  | raised fault s'' =>
    cases ho
    exact h
  | outOfFuel => cases ho

theorem later {o : Outcome RunState α} (hs : Ahead g s s') (h : Grounds g s' Q o) : Grounds g s Q o := by
  cases o with
  | ok a s'' => exact ⟨hs.trans h.1, h.2⟩
  | raised fault s'' => exact hs.trans h
  | outOfFuel => trivial

theorem bind {x : Run α} {f : α → Run β} (hx : Grounds g s Q (x s))
    (hf : ∀ a s', x s = .ok a s' → Ahead g s s' → Q a s'.store → Grounds g s' R (f a s')) :
    Grounds g s R ((x >>= f) s) := by
  rw [Action.bind_apply]
  cases h : x s with
  | ok a s' =>
    rw [h] at hx
    exact (hf a s' h hx.1 hx.2).later hx.1
  | raised fault s' =>
    rw [h] at hx
    exact hx
  | outOfFuel => trivial

theorem inScope {x : Run α} {e : ScopeId}
    (h : Grounds g { s with scope := e } Q (x { s with scope := e })) :
    Grounds g s Q (Run.inScope e x s) := by
  unfold Run.inScope
  cases hx : x { s with scope := e } with
  | ok a s' =>
    rw [hx] at h
    exact ⟨⟨h.1.store, h.1.persists, rfl⟩, h.2⟩
  | raised fault s' =>
    rw [hx] at h
    exact ⟨h.store, h.persists, rfl⟩
  | outOfFuel => trivial

theorem deeper {x : Run α}
    (h : Grounds g { s with depth := s.depth + 1 } Q (x { s with depth := s.depth + 1 })) :
    Grounds g s Q (Run.deeper x s) := by
  unfold Run.deeper
  cases hx : x { s with depth := s.depth + 1 } with
  | ok a s' =>
    rw [hx] at h
    exact ⟨⟨h.1.store, h.1.persists, h.1.scope⟩, h.2⟩
  | raised fault s' =>
    rw [hx] at h
    exact ⟨h.store, h.persists, h.scope⟩
  | outOfFuel => trivial

/-! ### Lists -/

theorem collect {f : α → Run Value} {as : List α}
    (hf : ∀ a ∈ as, ∀ s, s.Grounded g → Grounds g s (fun v st => st.Knows v) (f a s))
    (hs : s.Grounded g) :
    Grounds g s (fun vs st => ∀ v ∈ vs, st.Knows v) (Action.collect f as s) := by
  induction as generalizing s with
  | nil => exact .ok hs.store fun v hv => by cases hv
  | cons a as ih =>
    refine (hf a List.mem_cons_self s hs).bind fun v s₁ _ hl hv => ?_
    have hrest := ih (fun b hb => hf b (List.mem_cons_of_mem a hb)) (hl.grounded hs)
    refine hrest.bind fun vs s₂ _ hl' hvs => .ok hl'.store ?_
    exact List.forall_mem_cons.2 ⟨hl'.persists.knows hv, hvs⟩

theorem untilReturn {f : α → Run Completion} {as : List α}
    (hf : ∀ a ∈ as, ∀ s, s.Grounded g → Grounds g s (fun c st => st.KnowsCompletion c) (f a s))
    (hs : s.Grounded g) :
    Grounds g s (fun c st => st.KnowsCompletion c) (Action.untilReturn f as s) := by
  induction as generalizing s with
  | nil => exact .ok hs.store trivial
  | cons a as ih =>
    refine (hf a List.mem_cons_self s hs).bind fun c s₁ _ hl hc => ?_
    cases c with
    | normal => exact ih (fun b hb => hf b (List.mem_cons_of_mem a hb)) (hl.grounded hs)
    | returned v => exact .ok hl.store hc

theorem throughout {f : α → Run Completion} {as : List α}
    (hf : ∀ a ∈ as, ∀ s, s.Grounded g → Grounds g s (fun c st => st.KnowsCompletion c) (f a s))
    (hs : s.Grounded g) : Grounds g s (fun _ _ => True) (Action.throughout f as s) := by
  induction as generalizing s with
  | nil => exact .ok hs.store trivial
  | cons a as ih =>
    refine (hf a List.mem_cons_self s hs).bind fun c s₁ _ hl _ => ?_
    exact ih (fun b hb => hf b (List.mem_cons_of_mem a hb)) (hl.grounded hs)

end Grounds

/-! ### Literals and operators

Their results name no objects. -/

theorem Literal.isPlain_of_evaluate {value : Literal} {v : Value} (h : value.evaluate = .ok v) :
    v.isPlain := by
  cases value with
  | integer i =>
    unfold Literal.evaluate at h
    dsimp only at h
    split at h
    · cases h
      rfl
    · cases h
  | _ =>
    cases h
    rfl

theorem Token.isPlain_of_applyUnary {operator : Token} {v w : Value}
    (h : operator.applyUnary v = .ok w) : w.isPlain := by
  unfold Token.applyUnary at h
  split at h <;> cases h <;> rfl

theorem Token.isPlain_of_applyArithmetic {operator : Token} {x y : Float} {v : Value}
    (h : operator.applyArithmetic x y = .ok v) : v.isPlain := by
  unfold Token.applyArithmetic at h
  split at h <;> cases h <;> rfl

theorem Token.isPlain_of_applyBinary {operator : Token} {l r v : Value}
    (h : operator.applyBinary l r = .ok v) : v.isPlain := by
  unfold Token.applyBinary at h
  split at h
  case h_6 => exact isPlain_of_applyArithmetic h
  all_goals cases h <;> rfl

/-! ### The operations of a run -/

theorem grounds_ofExcept (hs : s.store.Grounded g) {x : Except Fault Value}
    (hx : ∀ v, x = .ok v → v.isPlain) : Grounds g s (fun v st => st.Knows v) (Action.ofExcept x s) := by
  cases x with
  | ok v => exact .ok hs (Store.knows_of_isPlain (hx v rfl))
  | error fault => exact .raised hs fault

theorem grounds_getAt (hs : s.store.Grounded g) (e : ScopeId) (d : Int) (x : String) :
    Grounds g s (fun v st => st.Knows v) (Run.ofScope (s.store.getAt e d x) s) := by
  cases hv : s.store.getAt e d x with
  | ok v => exact .ok hs (hs.getAt hv)
  | error fault => exact .raised hs _

theorem grounds_lookUp (hs : s.store.Grounded g) (ctx : Context) (id : NodeId) (name : Token) :
    Grounds g s (fun v st => st.Knows v) (Run.lookUp ctx id name s) := by
  cases hd : ctx.table[id]? with
  | some d =>
    rw [Run.lookUp_of_local hd]
    exact grounds_getAt hs s.scope d name.lexeme
  | none =>
    cases hv : s.store.get? ctx.globals name.lexeme with
    | some v =>
      rw [Run.lookUp_of_global hd hv]
      exact .ok hs (hs.get? hv)
    | none =>
      rw [Run.lookUp_of_undefined hd hv]
      exact .raised hs _

theorem grounds_define (hs : s.store.Grounded g) (x : String) {v : Value} (hv : s.store.Knows v) :
    Grounds g s (fun _ _ => True) (Run.define x v s) :=
  ⟨.of_store (hs.define s.scope x hv) (.define ..), trivial⟩

theorem grounds_assign (hs : s.store.Grounded g) (ctx : Context) (id : NodeId) (name : Token)
    {v : Value} (hv : s.store.Knows v) :
    Grounds g s (fun _ st => st.Knows v) (Run.assign ctx id name v s) := by
  unfold Run.assign
  rcases Run.assignedScope_cases ctx id name s with ⟨e, he⟩ | ⟨fault, he⟩
  · rw [Action.bind_apply, he]
    have hp := Store.PersistsIn.define s.store e name.lexeme v
    exact ⟨.of_store (hs.define e name.lexeme hv) hp, hp.knows hv⟩
  · rw [Action.bind_apply, he]
    exact .raised hs fault

theorem grounds_bindValue (hs : s.store.Grounded g) {f : FunctionObject} {this : Value}
    (hf : (s.store.scope? f.closure).isSome) (hthis : s.store.Knows this) :
    Grounds g s (fun v st => st.Knows v) (Run.alloc (·.bindValue f this) s) := by
  refine ⟨.of_store (hs.bindValue hf hthis) (.bindValue ..), ?_⟩
  exact Option.isSome_iff_exists.2 ⟨_, (s.store.fetches_bindValue f this).made⟩

theorem grounds_getProperty (hs : s.store.Grounded g) {i : InstanceId} (name : Token)
    (hi : s.store.Knows (.inst i)) :
    Grounds g s (fun v st => st.Knows v) (Run.getProperty i name s) := by
  unfold Run.getProperty
  rw [Run.ask_bind]
  cases hm : s.store.member? i name.lexeme with
  | none => exact .raised hs _
  | some m =>
    cases m with
    | field v => exact .ok hs (hs.field_of_member? hm)
    | method f => exact grounds_bindValue hs (hs.method_of_member? hm) hi

theorem grounds_superMethod (hs : s.store.Grounded g) (ctx : Context) (id : NodeId) (method : Token) :
    Grounds g s (fun v st => st.Knows v) (Run.superMethod ctx id method s) := by
  rcases Run.superMethod_cases ctx id method s with ⟨d, c, this, f, hd, hc, ht, hf⟩ | ⟨fault, hraised⟩
  · rw [Run.superMethod_of_found hd hc ht hf]
    exact grounds_bindValue hs (hs.method? hf) (hs.getAt ht)
  · rw [hraised]
    exact .raised hs fault

/-! ### Calls -/

section Calls

variable {runBody : List Stmt → Run Completion} {vs : List Value}

theorem grounds_callFunction (hs : s.store.Grounded g) {f : FunctionObject}
    (hf : (s.store.scope? f.closure).isSome) (hvs : ∀ v ∈ vs, s.store.Knows v)
    (hbody : ∀ s : RunState, s.Grounded g →
      Grounds g s (fun c st => st.KnowsCompletion c) (runBody f.declaration.body s)) :
    Grounds g s (fun v st => st.Knows v) (Run.callFunction runBody f vs s) := by
  have hentered := hs.newCall hf hvs
  let s₁ : RunState := { s with store := (s.store.newScope (Run.callScope f vs)).2 }
  have hl : Ahead g s s₁ := .of_store hentered (.newScope ..)
  refine Grounds.later hl ?_
  show Grounds g s₁ _ ((Run.inScope _ (runBody f.declaration.body) >>= _) s₁)
  refine (Grounds.inScope (hbody _ ⟨hentered, Store.isSome_scope?_newScope ..⟩)).bind fun c s₂ _ hl' hc => ?_
  cases f.isInitializer with
  | true => exact grounds_getAt hl'.store f.closure 0 "this"
  | false =>
    cases c with
    | normal => exact .ok hl'.store trivial
    | returned v => exact .ok hl'.store hc

theorem Constructs.grounded {c : ClassId} {f m : FunctionObject} (hs : s.store.Grounded g)
    (hc : (s.store.class? c).isSome) (h : Constructs c s f m s') : Ahead g s s' ∧
      (s'.store.scope? m.closure).isSome ∧ s'.store.Knows (.inst (s.store.newInstance c).1) := by
  cases h with
  | mk hi hf hm =>
    cases hi
    cases hm
    have hnew := hs.newInstance hc
    have hinst := s.store.knows_newInstance c
    refine ⟨.of_store (hnew.bindScope (hnew.method? hf) hinst) ?_, Store.isSome_scope?_newScope .., ?_⟩
    · exact (Store.PersistsIn.newInstance ..).trans (.newScope ..)
    · exact (Store.PersistsIn.newScope ..).knows hinst

theorem grounds_invoke (hs : s.store.Grounded g) {c : Callable} (hc : s.store.KnowsCallable c)
    (hvs : ∀ v ∈ vs, s.store.Knows v)
    (hbody : ∀ (f : FunctionObject) (s : RunState), s.Grounded g →
      Grounds g s (fun c st => st.KnowsCompletion c) (runBody f.declaration.body s)) :
    Grounds g s (fun v st => st.Knows v) (Run.invoke runBody c vs s) := by
  cases c with
  | native n => exact .ok hs (Store.knows_apply n hvs)
  | function f => exact grounds_callFunction hs hc hvs (hbody f)
  | cls c =>
    show Grounds g s _ ((Run.alloc _ >>= _) s)
    rw [Run.alloc_bind, Run.ask_bind]
    cases hf : (s.store.newInstance c).2.initializer? c with
    | none => exact ⟨.of_store (hs.newInstance hc) (.newInstance ..), s.store.knows_newInstance c⟩
    | some f =>
      have hcon : Constructs c s f _ _ := .mk rfl hf rfl
      obtain ⟨hl, hclosure, hinst⟩ := hcon.grounded hs hc
      refine Grounds.later hl ((grounds_callFunction hl.store hclosure ?_ (hbody _)).bind ?_)
      · exact fun v hv => hl.persists.knows (hvs v hv)
      · exact fun _ s₂ _ hl' _ => .ok hl'.store (hl'.persists.knows hinst)

end Calls

/-! ### Class declarations -/

/-- A class declaration makes the scope of its methods, and then the class. -/
theorem RunState.Grounded.declares (hs : s.Grounded g) {superclass : Option ClassId}
    (hc : ∀ c, superclass = some c → (s.store.class? c).isSome) {x : String} {e : ScopeId}
    (he : (s.store.define s.scope x .nil).methodScope s.scope superclass = (e, st))
    (methods : List FunctionDecl) : st.Grounded g ∧ s.store.PersistsIn st ∧
      (st.makeClass x superclass methods e).2.Grounded g ∧
        (st.makeClass x superclass methods e).2.Knows (.cls (st.makeClass x superclass methods e).1) := by
  have hp := Store.PersistsIn.define s.store s.scope x .nil
  have hp' := Store.PersistsIn.methodScope (s.store.define s.scope x .nil) s.scope superclass
  rw [he] at hp'
  have hreserved := hs.store.define s.scope x (v := .nil) trivial
  obtain ⟨hst, hscope⟩ := hreserved.methodScope (hp.isSome_scope? hs.scope)
    (fun c h => hp.isSome_class? (hc c h)) he
  have hclass : ∀ c, superclass = some c → (st.class? c).isSome := fun c h =>
    (hp.trans hp').isSome_class? (hc c h)
  exact ⟨hst, hp.trans hp', hst.makeClass hscope hclass x methods⟩

theorem grounds_declareClass (hs : s.Grounded g) (name : Token) {superclass : Option ClassId}
    (methods : List FunctionDecl) (hc : ∀ c, superclass = some c → (s.store.class? c).isSome) :
    Grounds g s (fun _ _ => True) (Run.declareClass name superclass methods s) := by
  cases he : (s.store.define s.scope name.lexeme .nil).methodScope s.scope superclass with
  | mk e st =>
    obtain ⟨-, hp, hmade, hknown⟩ := hs.declares hc he methods
    have hall : s.store.PersistsIn (st.makeClass name.lexeme superclass methods e).2 :=
      hp.trans (.makeClass ..)
    rw [Run.declareClass_apply he]
    cases (st.makeClass name.lexeme superclass methods e).2.owner? s.scope name.lexeme with
    | some owner => exact ⟨.of_store (hmade.define owner _ hknown) (hall.trans (.define ..)), trivial⟩
    | none => exact .of_store hmade hall

/-! ### Whole runs -/

section Runs

variable {ctx : Context} {n : Nat} {t u : Part}

/-- Every run with so much fuel stays on grounded stores. -/
structure RunsGrounded (g : ScopeId) (ctx : Context) (n : Nat) : Prop where
  expr : ∀ (e : Expr) (s : RunState), s.Grounded g →
    Grounds g s (fun v st => st.Knows v) (evaluate ctx n e s)
  stmt : ∀ (st : Stmt) (s : RunState), s.Grounded g →
    Grounds g s (fun c st => st.KnowsCompletion c) (execute ctx n st s)

/-- A statement that hands on nothing. -/
theorem Grounds.normal {x : Run Unit} (h : Grounds g s (fun _ _ => True) (x s)) :
    Grounds g s (fun c st => st.KnowsCompletion c) ((x >>= fun _ => pure Completion.normal) s) :=
  h.bind fun _ _ _ hl _ => .ok hl.store trivial

theorem grounds_call_expr (ih : RunsGrounded g ctx n) (hs : s.Grounded g) (id : NodeId) (callee : Expr)
    (paren : Token) (arguments : List Expr) : Grounds g s (fun v st => st.Knows v)
      (evaluate ctx (n + 1) (.call id callee paren arguments) s) := by
  refine (ih.expr callee s hs).bind fun f s₁ _ hl hf => ?_
  refine (Grounds.collect (fun e _ => ih.expr e) (hl.grounded hs)).bind fun vs s₂ _ hl' hvs => ?_
  rcases Run.call_cases ctx (Action.untilReturn (execute ctx n)) paren f vs s₂ with
    ⟨e, he⟩ | ⟨c, hc, -, -, hcall⟩
  · rw [he]
    exact .raised hl'.store _
  · rw [hcall]
    refine .deeper (grounds_invoke (s := { s₂ with depth := s₂.depth + 1 }) hl'.store
      (hl'.store.callable? hc) hvs ?_)
    exact fun m s' hs' => .untilReturn (fun st _ => ih.stmt st) hs'

/-- One step of the induction, for expressions. -/
theorem grounds_evaluate (ih : RunsGrounded g ctx n) (e : Expr) (hs : s.Grounded g) :
    Grounds g s (fun v st => st.Knows v) (evaluate ctx (n + 1) e s) := by
  cases e with
  | literal id value =>
    exact grounds_ofExcept hs.store fun _ => Literal.isPlain_of_evaluate
  | var ref => exact grounds_lookUp hs.store ctx ref.id ref.name
  | assign id target equals value =>
    refine (ih.expr value s hs).bind fun v s₁ _ hl hv => ?_
    refine (grounds_assign hl.store ctx id (target.assignedName equals) hv).bind ?_
    exact fun _ s₂ _ hl' hv' => .ok hl'.store hv'
  | binary id left operator right =>
    refine (ih.expr left s hs).bind fun l s₁ _ hl _ => ?_
    refine (ih.expr right s₁ (hl.grounded hs)).bind fun r s₂ _ hl' _ => ?_
    exact grounds_ofExcept hl'.store fun _ => Token.isPlain_of_applyBinary
  | logical id left operator right =>
    refine (ih.expr left s hs).bind fun l s₁ _ hl hv => ?_
    cases operator.decidesLogical l with
    | true => exact .ok hl.store hv
    | false => exact ih.expr right s₁ (hl.grounded hs)
  | unary id operator operand =>
    refine (ih.expr operand s hs).bind fun v s₁ _ hl _ => ?_
    exact grounds_ofExcept hl.store fun _ => Token.isPlain_of_applyUnary
  | grouping id inner => exact ih.expr inner s hs
  | call id callee paren arguments => exact grounds_call_expr ih hs id callee paren arguments
  | get id object name =>
    refine (ih.expr object s hs).bind fun v s₁ _ hl hv => ?_
    cases v with
    | inst i => exact grounds_getProperty hl.store name hv
    | _ => exact .raised hl.store _
  | set id object name value =>
    refine (ih.expr object s hs).bind fun v s₁ _ hl hv => ?_
    cases v with
    | inst i =>
      refine (ih.expr value s₁ (hl.grounded hs)).bind fun w s₂ _ hl' hw => ?_
      have hp := Store.PersistsIn.setField s₂.store i name.lexeme w
      exact ⟨.of_store (hl'.store.setField i name.lexeme hw) hp, hp.knows hw⟩
    | _ => exact .raised hl.store _
  | this id keyword => exact grounds_lookUp hs.store ctx id keyword
  | super id keyword method => exact grounds_superMethod hs.store ctx id method

/-- A block is run in a new scope. -/
theorem Store.Grounded.newBlock (h : st.Grounded g) {e : ScopeId} (he : (st.scope? e).isSome) :
    (st.newScope { enclosing := some e }).2.Grounded g :=
  h.newScope rfl he fun x v hv => by simp at hv

/-- One step of the induction, for statements. -/
theorem grounds_execute (ih : RunsGrounded g ctx n) (statement : Stmt) (hs : s.Grounded g) :
    Grounds g s (fun c st => st.KnowsCompletion c) (execute ctx (n + 1) statement s) := by
  cases statement with
  | block id body =>
    have hnew := hs.store.newBlock hs.scope
    have hl : Ahead g s { s with store := (s.store.newScope { enclosing := some s.scope }).2 } :=
      .of_store hnew (.newScope ..)
    refine Grounds.later hl (.inScope ?_)
    exact .untilReturn (fun st _ => ih.stmt st) ⟨hnew, Store.isSome_scope?_newScope ..⟩
  | expression id e => exact (ih.expr e s hs).bind fun _ _ _ hl _ => .ok hl.store trivial
  | print id e =>
    refine (ih.expr e s hs).bind fun v s₁ _ hl _ => ?_
    exact ⟨⟨hl.store, .refl _, rfl⟩, trivial⟩
  | varDecl id name initializer =>
    cases initializer with
    | none => exact (grounds_define hs.store name.lexeme (v := .nil) trivial).normal
    | some e =>
      refine (ih.expr e s hs).bind fun v s₁ _ hl hv => ?_
      exact (grounds_define hl.store name.lexeme hv).normal
  | branch id condition thenBranch elseBranch =>
    refine (ih.expr condition s hs).bind fun v s₁ _ hl _ => ?_
    cases v.truthy with
    | true => exact ih.stmt thenBranch s₁ (hl.grounded hs)
    | false =>
      cases elseBranch with
      | none => exact .ok hl.store trivial
      | some e => exact ih.stmt e s₁ (hl.grounded hs)
  | loop id condition body =>
    refine (ih.expr condition s hs).bind fun v s₁ _ hl _ => ?_
    cases v.truthy with
    | true =>
      refine (ih.stmt body s₁ (hl.grounded hs)).bind fun c s₂ _ hl' hc => ?_
      cases c with
      | normal => exact ih.stmt _ s₂ (hl'.grounded (hl.grounded hs))
      | returned w => exact .ok hl'.store hc
    | false => exact .ok hl.store trivial
  | function f =>
    have hnew := hs.store.newFunction (f := ⟨f, s.scope, false⟩) hs.scope
    have hl : Ahead g s { s with store := (s.store.newFunction ⟨f, s.scope, false⟩).2 } :=
      .of_store hnew (.newFunction ..)
    refine Grounds.later hl ?_
    exact (grounds_define hnew f.name.lexeme (Store.knows_newFunction ..)).normal
  | ret id keyword value =>
    cases value with
    | none => exact .ok hs.store trivial
    | some e => exact (ih.expr e s hs).bind fun _ _ _ hl hv => .ok hl.store hv
  | classDecl id name superclass methods =>
    cases superclass with
    | none => exact (grounds_declareClass hs name methods fun c hc => by cases hc).normal
    | some ref =>
      refine (ih.expr (.var ref) s hs).bind fun v s₁ _ hl hv => ?_
      cases v with
      | cls c =>
        refine (grounds_declareClass (hl.grounded hs) name methods fun d hd => ?_).normal
        cases hd
        exact hv
      | _ => exact .raised hl.store _

/-- Whatever is run from a grounded state stays on grounded stores. -/
theorem runs_grounded (n : Nat) : RunsGrounded g ctx n := by
  induction n with
  | zero => exact ⟨fun _ _ _ => trivial, fun _ _ _ => trivial⟩
  | succ n ih => exact ⟨fun e _ hs => grounds_evaluate ih e hs, fun st _ hs => grounds_execute ih st hs⟩

/-! ### What is reached -/

section

variable {e : Expr} {v : Value} {body : List Stmt} (hs : s.Grounded g)

include hs

theorem RunState.Grounded.evaluated (he : evaluate ctx n e s = .ok v s') :
    s'.Grounded g ∧ s'.store.Knows v := by
  obtain ⟨hl, hv⟩ := ((runs_grounded n).expr e s hs).of_ok he
  exact ⟨hl.grounded hs, hv⟩

theorem RunState.Grounded.executed {statement : Stmt} {c : Completion}
    (he : execute ctx n statement s = .ok c s') : s'.Grounded g :=
  (((runs_grounded n).stmt statement s hs).of_ok he).1.grounded hs

theorem RunState.Grounded.collected {es : List Expr} {vs : List Value}
    (he : Action.collect (evaluate ctx n) es s = .ok vs s') :
    s'.Grounded g ∧ ∀ v ∈ vs, s'.store.Knows v := by
  obtain ⟨hl, hvs⟩ := (Grounds.collect (fun e _ => (runs_grounded n).expr e) hs).of_ok he
  exact ⟨hl.grounded hs, hvs⟩

theorem RunState.Grounded.run {c : Completion}
    (he : Action.untilReturn (execute ctx n) body s = .ok c s') : s'.Grounded g :=
  ((Grounds.untilReturn (fun st _ => (runs_grounded n).stmt st) hs).of_ok he).1.grounded hs

theorem RunState.Grounded.applied {callee : Expr} {arguments : List Expr} {c : Callable}
    {vs : List Value} (ha : Applies ctx n callee arguments s c vs s') :
    s'.Grounded g ∧ s'.store.KnowsCallable c ∧ ∀ v ∈ vs, s'.store.Knows v := by
  cases ha with
  | mk hf hvs hc =>
    obtain ⟨hs₂, hknown⟩ := (hs.evaluated hf).1.collected hvs
    exact ⟨⟨hs₂.store, hs₂.scope⟩, hs₂.store.callable? hc, hknown⟩

theorem RunState.Grounded.started {c : Callable} {vs : List Value} {f : FunctionObject}
    (hc : s.store.KnowsCallable c) (hvs : ∀ v ∈ vs, s.store.Knows v) (hst : Starts vs c s f s') :
    s'.Grounded g := by
  cases hst with
  | function he =>
    cases he
    exact ⟨hs.store.newCall hc hvs, Store.isSome_scope?_newScope ..⟩
  | construct hcon he =>
    obtain ⟨hl, hclosure, -⟩ := hcon.grounded hs.store hc
    cases he
    exact ⟨hl.store.newCall hclosure fun v hv => hl.persists.knows (hvs v hv),
      Store.isSome_scope?_newScope ..⟩

/-- A class declaration that knows its superclass. -/
theorem RunState.Grounded.inherited {superclass : Option VarRef} {c : Option ClassId}
    (hc : Inherits ctx n superclass s c s') :
    s'.Grounded g ∧ ∀ d, c = some d → (s'.store.class? d).isSome := by
  cases hc with
  | nothing => exact ⟨hs, fun d hd => by cases hd⟩
  | of he =>
    obtain ⟨hs', hv⟩ := hs.evaluated he
    refine ⟨hs', fun d hd => ?_⟩
    cases hd
    exact hv

/-- A node that is called is run in a scope of a grounded store. -/
theorem RunState.Grounded.called (hc : Calls ctx n t s u s') : s'.Grounded g := by
  cases hc with
  | binaryRight hl => exact (hs.evaluated hl).1
  | logicalRight hl => exact (hs.evaluated hl).1
  | argument hf hvs => exact ((hs.evaluated hf).1.collected hvs).1
  | body ha hst hb =>
    obtain ⟨hs₁, hc, hvs⟩ := hs.applied ha
    exact (hs₁.started hc hvs hst).run hb
  | setValue ho => exact (hs.evaluated ho).1
  | block hscope hb =>
    cases hscope
    refine RunState.Grounded.run ⟨?_, ?_⟩ hb
    · exact hs.store.newBlock hs.scope
    · exact Store.isSome_scope?_newScope ..
  | thenBranch hv => exact (hs.evaluated hv).1
  | elseBranch hv => exact (hs.evaluated hv).1
  | loopBody hv => exact (hs.evaluated hv).1
  | loopAgain hv _ hb => exact (hs.evaluated hv).1.executed hb
  | _ => exact hs

/-- So is every node that is visited. -/
theorem RunState.Grounded.visited {m : Nat} (hv : Visits ctx n t s m u s') : s'.Grounded g := by
  induction hv with
  | here => exact hs
  | step hc _ ih => exact ih (hs.called hc)

/-- The store is grounded before and after a change. -/
theorem RunState.Grounded.changed (hch : Changes ctx n t s st st') : st.Grounded g ∧ st'.Grounded g := by
  cases hch with
  | assigned hv =>
    obtain ⟨hs₁, hknown⟩ := hs.evaluated hv
    exact ⟨hs₁.store, hs₁.store.define _ _ hknown⟩
  | fieldSet ho hv =>
    obtain ⟨hs₂, hknown⟩ := (hs.evaluated ho).1.evaluated hv
    exact ⟨hs₂.store, hs₂.store.setField _ _ hknown⟩
  | got ho hm =>
    obtain ⟨hs₁, hi⟩ := hs.evaluated ho
    exact ⟨hs₁.store, hs₁.store.bindValue (hs₁.store.method_of_member? hm) hi⟩
  | super _ _ ht hf => exact ⟨hs.store, hs.store.bindValue (hs.store.method? hf) (hs.store.getAt ht)⟩
  | instantiated ha =>
    obtain ⟨hs₁, hc, -⟩ := hs.applied ha
    exact ⟨hs₁.store, hs₁.store.newInstance hc⟩
  | initialized ha hcon =>
    obtain ⟨hs₁, hc, -⟩ := hs.applied ha
    exact ⟨hs₁.store.newInstance hc, (hcon.grounded hs₁.store hc).1.store⟩
  | entered ha =>
    obtain ⟨hs₁, hc, hvs⟩ := hs.applied ha
    exact ⟨hs₁.store, hs₁.store.newCall hc hvs⟩
  | enteredInitializer ha hcon =>
    obtain ⟨hs₁, hc, hvs⟩ := hs.applied ha
    obtain ⟨hl, hclosure, -⟩ := hcon.grounded hs₁.store hc
    exact ⟨hl.store, hl.store.newCall hclosure fun v hv => hl.persists.knows (hvs v hv)⟩
  | block => exact ⟨hs.store, hs.store.newBlock hs.scope⟩
  | declared => exact ⟨hs.store, hs.store.define _ _ trivial⟩
  | initializedVar hv =>
    obtain ⟨hs₁, hknown⟩ := hs.evaluated hv
    exact ⟨hs₁.store, hs₁.store.define _ _ hknown⟩
  | closed => exact ⟨hs.store, hs.store.newFunction hs.scope⟩
  | @functionNamed f =>
    have hnew := hs.store.newFunction (f := ⟨f, s.scope, false⟩) hs.scope
    exact ⟨hnew, hnew.define _ _ (Store.knows_newFunction ..)⟩
  | reserved hc =>
    obtain ⟨hs₁, -⟩ := hs.inherited hc
    exact ⟨hs₁.store, hs₁.store.define _ _ trivial⟩
  | enclosed hc =>
    obtain ⟨hs₁, hknown⟩ := hs.inherited hc
    exact ⟨hs₁.store.define _ _ trivial, (hs₁.declares hknown rfl []).1⟩
  | made hc he =>
    obtain ⟨hs₁, hknown⟩ := hs.inherited hc
    obtain ⟨hst, -, hmade, -⟩ := hs₁.declares hknown he _
    exact ⟨hst, hmade⟩
  | classNamed hc he =>
    obtain ⟨hs₁, hknown⟩ := hs.inherited hc
    obtain ⟨-, -, hmade, hcls⟩ := hs₁.declares hknown he _
    exact ⟨hmade, hmade.define _ _ hcls⟩

end

end Runs

/-! ### Interpretations -/

namespace Interpretation

variable {I : Interpretation} {m : Nat} {t : Part}

/-- All stores are grounded that the run of a program reaches from a grounded one. -/
theorem grounded (h : I.ready.start.Grounded g) (hst : I.Reaches st) : st.Grounded g := by
  have hbefore : ∀ {p : Program} {s}, Action.throughout (execute I.context I.fuel) p I.ready.start =
      .ok () s → s.Grounded g := fun ho =>
    ((Grounds.throughout (fun st _ => (runs_grounded _).stmt st) h).of_ok ho).1.grounded h
  have hvisit : ∀ {m t s}, I.Visits m t s → s.Grounded g := by
    rintro m t s ⟨-, hb, -, hv⟩
    exact (hbefore hb).visited hv
  cases hst with
  | start => exact h.store
  | visit hv => exact (hvisit hv).store
  | before hv hc => exact ((hvisit hv).changed hc).1
  | after hv hc => exact ((hvisit hv).changed hc).2
  | @ended report i hr =>
    have hrun : Grounds g I.ready.start (fun _ _ => True) I.ending :=
      .throughout (fun st _ => (runs_grounded I.fuel).stmt st) h
    rcases result_cases hr with ⟨-, -, hsame⟩ | ⟨s, hend⟩
    · rw [hsame]
      exact h.store
    · rw [hend.store]
      exact (hrun.of_state? hend.state).store

theorem globals_of_result? {report : Report} {i : Interpreter} (hr : I.result? = some (report, i)) :
    i.globals = I.interpreter.globals := by
  unfold result? Interpreter.interpret at hr
  dsimp only at hr
  split at hr
  · split at hr <;> cases hr <;> rfl
  · cases hr
    rfl

end Interpretation

/-- An interpreter that may be come to is at its globals, in a grounded store. -/
theorem Interpreter.Reachable.grounded {registry : NativeRegistry} {config : Config} {i : Interpreter}
    (h : Interpreter.Reachable registry config i) : i.AtRest ∧ i.start.Grounded i.globals := by
  induction h with
  | create h =>
    have hrest := AtRest.of_create h
    obtain ⟨st, hi, rfl⟩ := Interpreter.create_eq h
    have hst : st.Grounded ⟨0⟩ := Store.Grounded.newGlobals.install hi
    exact ⟨hrest, hst, hst.globals.1⟩
  | @interpret I report i _ hr ih =>
    have hrest : i.AtRest := .of_interpret hr
    have hst : i.store.Grounded i.globals := by
      rw [Interpretation.globals_of_result? hr]
      exact Interpretation.grounded ih.2 (.ended hr)
    refine ⟨hrest, hst, ?_⟩
    show (i.store.scope? i.scope).isSome
    rw [hrest.scope]
    exact hst.globals.1

/-- So all stores are grounded that are reached when it is given a program, with any table. -/
theorem Interpretation.grounded_of_reachable {registry : NativeRegistry} {config : Config}
    {I : Interpretation} (h : Interpreter.Reachable registry config I.interpreter)
    (hst : I.Reaches st) : st.Grounded I.interpreter.globals :=
  I.grounded h.grounded.2 hst

end Lox

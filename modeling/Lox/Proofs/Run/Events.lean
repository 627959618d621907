import Lox.Proofs.Run.Introduced

/-!
# What happens during a run

Three kinds of things happen: a node is visited, the store changes, a fault arises (`Event`).
`Changes` has one rule for each place where a node changes the store itself, and `Raises` one for each
place where it raises a fault itself; together with `Calls`, which names the nodes that are run on the
way, they say all that a node does.  `Happens` follows the calls to any depth.
-/

namespace Lox

/-! ### What the operations of a run come to -/

/-- A variable is read without a change of the state. -/
theorem Run.lookUp_cases (ctx : Context) (id : NodeId) (name : Token) (s : RunState) :
    (∃ v, Run.lookUp ctx id name s = .ok v s) ∨ ∃ fault, Run.lookUp ctx id name s = .raised fault s := by
  cases hd : ctx.table[id]? with
  | some d =>
    rw [Run.lookUp_of_local hd]
    cases s.store.getAt s.scope d name.lexeme with
    | ok v => exact .inl ⟨v, rfl⟩
    | error fault => exact .inr ⟨_, rfl⟩
  | none =>
    cases hv : s.store.get? ctx.globals name.lexeme with
    | some v => exact .inl ⟨v, Run.lookUp_of_global hd hv⟩
    | none => exact .inr ⟨_, Run.lookUp_of_undefined hd hv⟩

section

variable {ctx : Context} {id : NodeId} {method : Token} {s : RunState}

/-- A method of the superclass that is found is bound. -/
theorem Run.superMethod_of_found {d : Nat} {c : ClassId} {this : Value} {f : FunctionObject}
    (hd : ctx.table[id]? = some d) (hc : s.store.getAt s.scope d "super" = .ok (.cls c))
    (ht : s.store.getAt s.scope ((d : Int) - 1) "this" = .ok this)
    (hf : s.store.method? c method.lexeme = some f) : Run.superMethod ctx id method s =
      .ok (s.store.bindValue f this).1 { s with store := (s.store.bindValue f this).2 } := by
  unfold Run.superMethod
  rw [hd]
  show (Run.currentScope >>= _) s = _
  rw [Run.currentScope_bind, Run.ask_bind, hc, Run.ofScope_ok_bind, Run.ask_bind, ht,
    Run.ofScope_ok_bind]
  show (Run.ask _ >>= _) s = _
  rw [Run.ask_bind, hf]
  rfl

/-- A method that the superclass does not have is an undefined property. -/
theorem Run.superMethod_of_missing {d : Nat} {c : ClassId} {this : Value}
    (hd : ctx.table[id]? = some d) (hc : s.store.getAt s.scope d "super" = .ok (.cls c))
    (ht : s.store.getAt s.scope ((d : Int) - 1) "this" = .ok this)
    (hm : s.store.method? c method.lexeme = none) : Run.superMethod ctx id method s =
      .raised (.error ⟨.undefinedProperty, method⟩) s := by
  unfold Run.superMethod
  rw [hd]
  show (Run.currentScope >>= _) s = _
  rw [Run.currentScope_bind, Run.ask_bind, hc, Run.ofScope_ok_bind, Run.ask_bind, ht,
    Run.ofScope_ok_bind]
  show (Run.ask _ >>= _) s = _
  rw [Run.ask_bind, hm]
  rfl

/-- Otherwise there is a fault, and the state does not change. -/
theorem Run.superMethod_cases (ctx : Context) (id : NodeId) (method : Token) (s : RunState) :
    (∃ (d : Nat) (c : ClassId) (this : Value) (f : FunctionObject), ctx.table[id]? = some d ∧
      s.store.getAt s.scope d "super" = .ok (.cls c) ∧
      s.store.getAt s.scope ((d : Int) - 1) "this" = .ok this ∧
      s.store.method? c method.lexeme = some f) ∨
    ∃ fault, Run.superMethod ctx id method s = .raised fault s := by
  unfold Run.superMethod
  cases hd : ctx.table[id]? with
  | none => exact .inr ⟨_, rfl⟩
  | some d =>
    show _ ∨ ∃ fault, (Run.currentScope >>= _) s = .raised fault s
    rw [Run.currentScope_bind, Run.ask_bind]
    cases hc : s.store.getAt s.scope d "super" with
    | error fault => exact .inr ⟨_, rfl⟩
    | ok superclass =>
      rw [Run.ofScope_ok_bind, Run.ask_bind]
      cases ht : s.store.getAt s.scope ((d : Int) - 1) "this" with
      | error fault => exact .inr ⟨_, rfl⟩
      | ok this =>
        rw [Run.ofScope_ok_bind]
        cases superclass with
        | cls c =>
          show _ ∨ ∃ fault, (Run.ask _ >>= _) s = .raised fault s
          rw [Run.ask_bind]
          cases hf : s.store.method? c method.lexeme with
          | some f => exact .inl ⟨d, c, this, f, rfl, hc, ht, hf⟩
          | none => exact .inr ⟨_, rfl⟩
        | _ => exact .inr ⟨_, rfl⟩

end

/-! ### Class declarations -/

namespace Store

/-- The scope that the methods of a class close over. -/
def methodScope (st : Store) (e : ScopeId) : Option ClassId → ScopeId × Store
  | none => (e, st)
  | some c => st.newScope { enclosing := some e, values := {("super", .cls c)} }

/-- Makes the methods of a class. -/
def newMethods (e : ScopeId) : Std.ExtTreeMap String FunctionId → List FunctionDecl → Store →
    Std.ExtTreeMap String FunctionId × Store
  | table, [], st => (table, st)
  | table, f :: fs, st =>
    let (id, st) := st.newFunction ⟨f, e, f.name.lexeme = FunctionDecl.initializerName⟩
    newMethods e (table.insert f.name.lexeme id) fs st

/-- Makes a class with its methods. -/
def makeClass (st : Store) (name : String) (superclass : Option ClassId) (methods : List FunctionDecl)
    (e : ScopeId) : ClassId × Store :=
  let (table, st) := newMethods e ∅ methods st
  st.newClass ⟨name, superclass, table⟩

end Store

namespace Run

theorem methodTable_eq (e : ScopeId) (table : Std.ExtTreeMap String FunctionId)
    (fs : List FunctionDecl) : methodTable e table fs = alloc (Store.newMethods e table fs) := by
  induction fs generalizing table with
  | nil => rfl
  | cons f fs ih =>
    rw [methodTable]
    simp only [ih]
    rfl

/-- A class declaration, told by what it makes. -/
theorem declareClass_eq (name : Token) (superclass : Option ClassId) (methods : List FunctionDecl) :
    declareClass name superclass methods = (do
      define name.lexeme .nil
      let scope ← currentScope
      let e ← alloc (·.methodScope scope superclass)
      let c ← alloc (·.makeClass name.lexeme superclass methods e)
      match ← ask (·.owner? scope name.lexeme) with
      | some owner => modifyStore (·.define owner name.lexeme (.cls c))
      | none => Action.fail .undefinedVariable name) := by
  cases superclass with
  | none =>
    rw [declareClass_none]
    unfold declareMethods
    simp only [methodTable_eq]
    rfl
  | some c =>
    rw [declareClass_some]
    unfold declareMethods
    simp only [methodTable_eq]
    rfl

/-- What a class declaration comes to. -/
theorem declareClass_apply {name : Token} {superclass : Option ClassId} {methods : List FunctionDecl}
    {s : RunState} {e : ScopeId} {st : Store}
    (he : (s.store.define s.scope name.lexeme .nil).methodScope s.scope superclass = (e, st)) :
    declareClass name superclass methods s =
      match (st.makeClass name.lexeme superclass methods e).2.owner? s.scope name.lexeme with
      | some owner => .ok () { s with
          store := (st.makeClass name.lexeme superclass methods e).2.define owner name.lexeme
            (.cls (st.makeClass name.lexeme superclass methods e).1) }
      | none => .raised (.error ⟨.undefinedVariable, name⟩)
          { s with store := (st.makeClass name.lexeme superclass methods e).2 } := by
  rw [declareClass_eq, define_bind, currentScope_bind, alloc_bind]
  simp only [he]
  rw [alloc_bind, ask_bind]
  dsimp only
  cases (st.makeClass name.lexeme superclass methods e).2.owner? s.scope name.lexeme <;> rfl

end Run

variable (ctx : Context) (n : Nat)

/-- A class declaration knows its superclass, if it has one. -/
inductive Inherits : Option VarRef → RunState → Option ClassId → RunState → Prop
  | nothing {s} : Inherits none s none s
  | of {ref s c s'} (h : evaluate ctx n (.var ref) s = .ok (.cls c) s') :
      Inherits (some ref) s (some c) s'

/-- A call that is refused: the error, and the state when the callee and the arguments have been
evaluated. -/
inductive Refuses (callee : Expr) (paren : Token) (arguments : List Expr) (s : RunState) :
    RuntimeError → RunState → Prop
  | notCallable {f s₁ vs s₂} (hf : evaluate ctx n callee s = .ok f s₁)
      (hvs : Action.collect (evaluate ctx n) arguments s₁ = .ok vs s₂)
      (hc : s₂.store.callable? f = none) :
      Refuses callee paren arguments s ⟨.notCallable, paren⟩ s₂
  | arity {f s₁ vs s₂ c} (hf : evaluate ctx n callee s = .ok f s₁)
      (hvs : Action.collect (evaluate ctx n) arguments s₁ = .ok vs s₂)
      (hc : s₂.store.callable? f = some c) (harity : (vs.length : Int) ≠ s₂.store.arity c) :
      Refuses callee paren arguments s ⟨.arity (s₂.store.arity c) vs.length, paren⟩ s₂
  | overflow {f s₁ vs s₂ c} (hf : evaluate ctx n callee s = .ok f s₁)
      (hvs : Action.collect (evaluate ctx n) arguments s₁ = .ok vs s₂)
      (hc : s₂.store.callable? f = some c) (harity : (vs.length : Int) = s₂.store.arity c)
      (hdepth : ctx.maxDepth ≤ s₂.depth) :
      Refuses callee paren arguments s ⟨.stackOverflow ctx.maxDepth, paren⟩ s₂

/-! ### One way to go on

A run goes one way only, so the state in which a call is applied, or in which a body is started, is
determined by the state before it. -/

section

variable {ctx n} {callee : Expr} {arguments : List Expr} {s s₁ s₁' : RunState} {c c' : Callable}
  {vs vs' : List Value}

theorem Applies.unique (h : Applies ctx n callee arguments s c vs s₁)
    (h' : Applies ctx n callee arguments s c' vs' s₁') : c = c' ∧ vs = vs' ∧ s₁ = s₁' := by
  cases h with
  | mk hf hvs hc =>
    cases h' with
    | mk hf' hvs' hc' =>
      cases hf.symm.trans hf'
      cases hvs.symm.trans hvs'
      cases hc.symm.trans hc'
      exact ⟨rfl, rfl, rfl⟩

theorem Refuses.unique {paren : Token} {e e' : RuntimeError}
    (h : Refuses ctx n callee paren arguments s e s₁)
    (h' : Refuses ctx n callee paren arguments s e' s₁') : e = e' ∧ s₁ = s₁' := by
  cases h <;> cases h' <;> grind

theorem Refuses.not_applies {paren : Token} {e : RuntimeError}
    (h : Refuses ctx n callee paren arguments s e s₁) :
    ¬ Applies ctx n callee arguments s c vs s₁' := by
  intro ha
  cases ha
  cases h <;> grind

theorem Constructs.unique {id : ClassId} {f g f' g' : FunctionObject} (h : Constructs id s f g s₁)
    (h' : Constructs id s f' g' s₁') : f = f' ∧ g = g' ∧ s₁ = s₁' := by
  cases h with
  | mk hi hf hg =>
    cases h' with
    | mk hi' hf' hg' =>
      cases hi.symm.trans hi'
      cases hf.symm.trans hf'
      cases hg.symm.trans hg'
      exact ⟨rfl, rfl, rfl⟩

theorem Starts.unique {f f' : FunctionObject} (h : Starts vs c s f s₁) (h' : Starts vs c s f' s₁') :
    f = f' ∧ s₁ = s₁' := by
  cases h with
  | function he =>
    cases h' with
    | function he' =>
      cases he.symm.trans he'
      exact ⟨rfl, rfl⟩
  | construct hc he =>
    cases h' with
    | construct hc' he' =>
      obtain ⟨rfl, rfl, rfl⟩ := hc.unique hc'
      cases he.symm.trans he'
      exact ⟨rfl, rfl⟩

theorem Inherits.unique {superclass : Option VarRef} {d d' : Option ClassId}
    (h : Inherits ctx n superclass s d s₁) (h' : Inherits ctx n superclass s d' s₁') :
    d = d' ∧ s₁ = s₁' := by
  cases h with
  | nothing =>
    cases h'
    exact ⟨rfl, rfl⟩
  | of h =>
    cases h' with
    | of h' =>
      cases h.symm.trans h'
      exact ⟨rfl, rfl⟩

theorem Inherits.not_superclassNotClass {ref : VarRef} {d : Option ClassId} {v : Value}
    (h : Inherits ctx n (some ref) s d s₁) (hv : evaluate ctx n (.var ref) s = .ok v s₁')
    (hn : ∀ c, v ≠ .cls c) : False := by
  cases h with
  | of h =>
    cases h.symm.trans hv
    exact hn _ rfl

end

/-! ### Changes and faults -/

/-- While a part is run in a state, it changes one store to another. -/
inductive Changes : Part → RunState → Store → Store → Prop
  | assigned {id target equals value s v s₁ e} (hv : evaluate ctx n value s = .ok v s₁)
      (he : Run.assignedScope ctx id (target.assignedName equals) s₁ = .ok e s₁) :
      Changes (.expr (.assign id target equals value)) s s₁.store
        (s₁.store.define e (target.assignedName equals).lexeme v)
  | fieldSet {id object name value s i s₁ v s₂} (ho : evaluate ctx n object s = .ok (.inst i) s₁)
      (hv : evaluate ctx n value s₁ = .ok v s₂) :
      Changes (.expr (.set id object name value)) s s₂.store (s₂.store.setField i name.lexeme v)
  | got {id object name s i s₁ f} (ho : evaluate ctx n object s = .ok (.inst i) s₁)
      (hm : s₁.store.member? i name.lexeme = some (.method f)) :
      Changes (.expr (.get id object name)) s s₁.store (s₁.store.bindValue f (.inst i)).2
  | super {id keyword method s d c this f} (hd : ctx.table[id]? = some d)
      (hc : s.store.getAt s.scope d "super" = .ok (.cls c))
      (ht : s.store.getAt s.scope ((d : Int) - 1) "this" = .ok this)
      (hf : s.store.method? c method.lexeme = some f) :
      Changes (.expr (.super id keyword method)) s s.store (s.store.bindValue f this).2
  | instantiated {id callee paren arguments s c vs s₁}
      (ha : Applies ctx n callee arguments s (.cls c) vs s₁) :
      Changes (.expr (.call id callee paren arguments)) s s₁.store (s₁.store.newInstance c).2
  | initialized {id callee paren arguments s c vs s₁ f g s₂}
      (ha : Applies ctx n callee arguments s (.cls c) vs s₁) (hc : Constructs c s₁ f g s₂) :
      Changes (.expr (.call id callee paren arguments)) s (s₁.store.newInstance c).2 s₂.store
  | entered {id callee paren arguments s f vs s₁}
      (ha : Applies ctx n callee arguments s (.function f) vs s₁) :
      Changes (.expr (.call id callee paren arguments)) s s₁.store
        (s₁.store.newScope (Run.callScope f vs)).2
  | enteredInitializer {id callee paren arguments s c vs s₁ f g s₂}
      (ha : Applies ctx n callee arguments s (.cls c) vs s₁) (hc : Constructs c s₁ f g s₂) :
      Changes (.expr (.call id callee paren arguments)) s s₂.store
        (s₂.store.newScope (Run.callScope g vs)).2
  | block {id body s} : Changes (.stmt (.block id body)) s s.store
      (s.store.newScope { enclosing := some s.scope }).2
  | declared {id name s} : Changes (.stmt (.varDecl id name none)) s s.store
      (s.store.define s.scope name.lexeme .nil)
  | initializedVar {id name e s v s₁} (hv : evaluate ctx n e s = .ok v s₁) :
      Changes (.stmt (.varDecl id name (some e))) s s₁.store
        (s₁.store.define s₁.scope name.lexeme v)
  | closed {f s} : Changes (.stmt (.function f)) s s.store (s.store.newFunction ⟨f, s.scope, false⟩).2
  | functionNamed {f s} : Changes (.stmt (.function f)) s
      (s.store.newFunction ⟨f, s.scope, false⟩).2
      ((s.store.newFunction ⟨f, s.scope, false⟩).2.define s.scope f.name.lexeme
        (.function (s.store.newFunction ⟨f, s.scope, false⟩).1))
  | reserved {id name superclass methods s c s₁} (hc : Inherits ctx n superclass s c s₁) :
      Changes (.stmt (.classDecl id name superclass methods)) s s₁.store
        (s₁.store.define s₁.scope name.lexeme .nil)
  | enclosed {id name superclass methods s c s₁} (hc : Inherits ctx n superclass s c s₁) :
      Changes (.stmt (.classDecl id name superclass methods)) s
        (s₁.store.define s₁.scope name.lexeme .nil)
        ((s₁.store.define s₁.scope name.lexeme .nil).methodScope s₁.scope c).2
  | made {id name superclass methods s c s₁ e st} (hc : Inherits ctx n superclass s c s₁)
      (he : (s₁.store.define s₁.scope name.lexeme .nil).methodScope s₁.scope c = (e, st)) :
      Changes (.stmt (.classDecl id name superclass methods)) s st
        (st.makeClass name.lexeme c methods e).2
  | classNamed {id name superclass methods s c s₁ e st owner} (hc : Inherits ctx n superclass s c s₁)
      (he : (s₁.store.define s₁.scope name.lexeme .nil).methodScope s₁.scope c = (e, st))
      (ho : (st.makeClass name.lexeme c methods e).2.owner? s₁.scope name.lexeme = some owner) :
      Changes (.stmt (.classDecl id name superclass methods)) s
        (st.makeClass name.lexeme c methods e).2
        ((st.makeClass name.lexeme c methods e).2.define owner name.lexeme
          (.cls (st.makeClass name.lexeme c methods e).1))

/-- A class declaration changes nothing before it knows its superclass. -/
theorem Changes.inherits {ctx : Context} {n : Nat} {id : NodeId} {name : Token} {ref : VarRef}
    {methods : List FunctionDecl} {s : RunState} {st st' : Store}
    (h : Changes ctx n (.stmt (.classDecl id name (some ref) methods)) s st st') :
    ∃ c s₁, evaluate ctx n (.var ref) s = .ok (.cls c) s₁ := by
  have hof : ∀ {c s₁}, Inherits ctx n (some ref) s c s₁ →
      ∃ c s₁, evaluate ctx n (.var ref) s = .ok (.cls c) s₁ := by
    intro c s₁ hc
    cases hc with
    | of he => exact ⟨_, _, he⟩
  cases h with
  | reserved hc => exact hof hc
  | enclosed hc => exact hof hc
  | made hc => exact hof hc
  | classNamed hc => exact hof hc

/-- While a part is run in a state, it raises a fault, when the store has become the given one. -/
inductive Raises : Part → RunState → Fault → Store → Prop
  | literal {id value s fault} (h : value.evaluate = .error fault) :
      Raises (.expr (.literal id value)) s fault s.store
  | var {ref s fault} (h : Run.lookUp ctx ref.id ref.name s = .raised fault s) :
      Raises (.expr (.var ref)) s fault s.store
  | this {id keyword s fault} (h : Run.lookUp ctx id keyword s = .raised fault s) :
      Raises (.expr (.this id keyword)) s fault s.store
  | assigned {id target equals value s v s₁ fault} (hv : evaluate ctx n value s = .ok v s₁)
      (he : Run.assignedScope ctx id (target.assignedName equals) s₁ = .raised fault s₁) :
      Raises (.expr (.assign id target equals value)) s fault s₁.store
  | binary {id left operator right s l s₁ r s₂ fault} (hl : evaluate ctx n left s = .ok l s₁)
      (hr : evaluate ctx n right s₁ = .ok r s₂) (h : operator.applyBinary l r = .error fault) :
      Raises (.expr (.binary id left operator right)) s fault s₂.store
  | unary {id operator operand s v s₁ fault} (hv : evaluate ctx n operand s = .ok v s₁)
      (h : operator.applyUnary v = .error fault) :
      Raises (.expr (.unary id operator operand)) s fault s₁.store
  | refused {id callee paren arguments s e s₁}
      (h : Refuses ctx n callee paren arguments s e s₁) :
      Raises (.expr (.call id callee paren arguments)) s (.error e) s₁.store
  | initializer {id callee paren arguments s c vs s₁ f s₂ completion s₃ fault}
      (ha : Applies ctx n callee arguments s c vs s₁) (hs : Starts vs c s₁ f s₂)
      (hb : Action.untilReturn (execute ctx n) f.declaration.body s₂ = .ok completion s₃)
      (hi : f.isInitializer = true) (h : s₃.store.getAt f.closure 0 "this" = .error fault) :
      Raises (.expr (.call id callee paren arguments)) s (.scope fault) s₃.store
  | propertyOnNonInstance {id object name s v s₁} (ho : evaluate ctx n object s = .ok v s₁)
      (h : ∀ i, v ≠ .inst i) :
      Raises (.expr (.get id object name)) s (.error ⟨.propertyOnNonInstance, name⟩) s₁.store
  | undefinedProperty {id object name s i s₁} (ho : evaluate ctx n object s = .ok (.inst i) s₁)
      (h : s₁.store.member? i name.lexeme = none) :
      Raises (.expr (.get id object name)) s (.error ⟨.undefinedProperty, name⟩) s₁.store
  | fieldOnNonInstance {id object name value s v s₁} (ho : evaluate ctx n object s = .ok v s₁)
      (h : ∀ i, v ≠ .inst i) :
      Raises (.expr (.set id object name value)) s (.error ⟨.fieldOnNonInstance, name⟩) s₁.store
  | super {id keyword method s fault} (h : Run.superMethod ctx id method s = .raised fault s) :
      Raises (.expr (.super id keyword method)) s fault s.store
  | superclassNotClass {id name ref methods s v s₁} (hv : evaluate ctx n (.var ref) s = .ok v s₁)
      (h : ∀ c, v ≠ .cls c) :
      Raises (.stmt (.classDecl id name (some ref) methods)) s
        (.error ⟨.superclassNotClass, ref.name⟩) s₁.store
  | classUnnamed {id name superclass methods s c s₁ e st} (hc : Inherits ctx n superclass s c s₁)
      (he : (s₁.store.define s₁.scope name.lexeme .nil).methodScope s₁.scope c = (e, st))
      (ho : (st.makeClass name.lexeme c methods e).2.owner? s₁.scope name.lexeme = none) :
      Raises (.stmt (.classDecl id name superclass methods)) s
        (.error ⟨.undefinedVariable, name⟩) (st.makeClass name.lexeme c methods e).2

/-! ### Events -/

/-- Something that happens during a run: a node is visited with so much fuel left, one store becomes
another, or a fault arises in a store. -/
inductive Event
  | visit (m : Nat) (t : Part) (s : RunState)
  | change (st st' : Store)
  | raise (fault : Fault) (st : Store)

/-- What happens while a part is run in a state. -/
inductive Happens (t : Part) (s : RunState) : Event → Prop
  | visit {m u s'} (h : Visits ctx n t s m u s') : Happens t s (.visit m u s')
  | change {m u s' st st'} (h : Visits ctx n t s (m + 1) u s') (hc : Changes ctx m u s' st st') :
      Happens t s (.change st st')
  | raise {m u s' fault st} (h : Visits ctx n t s (m + 1) u s') (hr : Raises ctx m u s' fault st) :
      Happens t s (.raise fault st)

/-- What happens while a part is run, its own visit apart: what it does itself, and what happens while
the nodes are run that it calls. -/
inductive HappensInside (t : Part) (s : RunState) (ev : Event) : Prop
  | change {st st'} (h : Changes ctx n t s st st') (he : ev = .change st st')
  | raise {fault st} (h : Raises ctx n t s fault st) (he : ev = .raise fault st)
  | call {u s'} (h : Calls ctx n t s u s') (hev : Happens ctx n u s' ev)

/-! ### The events of a call -/

/-- What happens in the body of a function, from the state in which it starts on. -/
def BodyHappens (f : FunctionObject) (s : RunState) (ev : Event) : Prop :=
  ∃ (i : Nat) (st : Stmt), f.declaration.body[i]? = some st ∧ ∃ s',
    Action.untilReturn (execute ctx n) (f.declaration.body.take i) s = .ok .normal s' ∧
      Happens ctx n (.stmt st) s' ev

/-- What happens when a callable object is invoked. -/
inductive InvokeHappens (vs : List Value) (s : RunState) :
    Callable → Event → Prop
  | instantiated {c} : InvokeHappens vs s (.cls c) (.change s.store (s.store.newInstance c).2)
  | initialized {c f g s₁} (hc : Constructs c s f g s₁) :
      InvokeHappens vs s (.cls c) (.change (s.store.newInstance c).2 s₁.store)
  | entered {f} : InvokeHappens vs s (.function f)
      (.change s.store (s.store.newScope (Run.callScope f vs)).2)
  | enteredInitializer {c f g s₁} (hc : Constructs c s f g s₁) : InvokeHappens vs s (.cls c)
      (.change s₁.store (s₁.store.newScope (Run.callScope g vs)).2)
  | body {c f s₁ ev} (hs : Starts vs c s f s₁) (hb : BodyHappens ctx n f s₁ ev) :
      InvokeHappens vs s c ev
  | initializer {c f s₁ completion s₂ fault} (hs : Starts vs c s f s₁)
      (hb : Action.untilReturn (execute ctx n) f.declaration.body s₁ = .ok completion s₂)
      (hi : f.isInitializer = true) (h : s₂.store.getAt f.closure 0 "this" = .error fault) :
      InvokeHappens vs s c (.raise (.scope fault) s₂.store)

/-- What happens in a call expression when the callee and the arguments have been evaluated. -/
inductive ApplyHappens (callee : Expr) (paren : Token)
    (arguments : List Expr) (s : RunState) (ev : Event) : Prop
  | refused {e s₁} (h : Refuses ctx n callee paren arguments s e s₁)
      (he : ev = .raise (.error e) s₁.store)
  | applied {c vs s₁} (h : Applies ctx n callee arguments s c vs s₁)
      (hev : InvokeHappens ctx n vs s₁ c ev)

variable {ctx n} {t u : Part} {s s' : RunState} {ev : Event}

theorem Happens.of_call (hc : Calls ctx n t s u s') (h : Happens ctx n u s' ev) :
    Happens ctx (n + 1) t s ev := by
  cases h with
  | visit h => exact .visit (.step hc h)
  | change h hch => exact .change (.step hc h) hch
  | raise h hr => exact .raise (.step hc h) hr

theorem Happens.cases (h : Happens ctx (n + 1) t s ev) :
    ev = .visit (n + 1) t s ∨ HappensInside ctx n t s ev := by
  cases h with
  | visit h =>
    cases h with
    | here => exact .inl rfl
    | step hc h => exact .inr (.call hc (.visit h))
  | change h hch =>
    cases h with
    | here => exact .inr (.change hch rfl)
    | step hc h => exact .inr (.call hc (.change h hch))
  | raise h hr =>
    cases h with
    | here => exact .inr (.raise hr rfl)
    | step hc h => exact .inr (.call hc (.raise h hr))

/-- What happens in a call expression, in its order. -/
theorem HappensInside.call_cases {id : NodeId} {callee : Expr} {paren : Token}
    {arguments : List Expr}
    (hev : HappensInside ctx n (.expr (.call id callee paren arguments)) s ev) :
    Happens ctx n (.expr callee) s ev ∨ ∃ f s₁, evaluate ctx n callee s = .ok f s₁ ∧
      ((∃ (i : Nat) (e : Expr), arguments[i]? = some e ∧ ∃ vs s',
        Action.collect (evaluate ctx n) (arguments.take i) s₁ = .ok vs s' ∧
          Happens ctx n (.expr e) s' ev) ∨
      ∃ vs s₂, Action.collect (evaluate ctx n) arguments s₁ = .ok vs s₂ ∧
        ApplyHappens ctx n callee paren arguments s ev) := by
  have happlied : ApplyHappens ctx n callee paren arguments s ev →
      ∃ f s₁, evaluate ctx n callee s = .ok f s₁ ∧
        ∃ vs s₂, Action.collect (evaluate ctx n) arguments s₁ = .ok vs s₂ := by
    rintro (⟨hr, -⟩ | ⟨⟨hf, hvs⟩, -⟩)
    · cases hr with
      | notCallable hf hvs => exact ⟨_, _, hf, _, _, hvs⟩
      | arity hf hvs => exact ⟨_, _, hf, _, _, hvs⟩
      | overflow hf hvs => exact ⟨_, _, hf, _, _, hvs⟩
    · exact ⟨_, _, hf, _, _, hvs⟩
  suffices hcases : Happens ctx n (.expr callee) s ev ∨ (∃ f s₁ vs s' e, ∃ i : Nat,
      evaluate ctx n callee s = .ok f s₁ ∧ arguments[i]? = some e ∧
        Action.collect (evaluate ctx n) (arguments.take i) s₁ = .ok vs s' ∧
        Happens ctx n (.expr e) s' ev) ∨ ApplyHappens ctx n callee paren arguments s ev by
    rcases hcases with hev | ⟨f, s₁, vs, s', e, i, hf, hi, hvs, hev⟩ | hev
    · exact .inl hev
    · exact .inr ⟨f, s₁, hf, .inl ⟨i, e, hi, vs, s', hvs, hev⟩⟩
    · obtain ⟨f, s₁, hf, vs, s₂, hvs⟩ := happlied hev
      exact .inr ⟨f, s₁, hf, .inr ⟨vs, s₂, hvs, hev⟩⟩
  rcases hev with ⟨hch, rfl⟩ | ⟨hr, rfl⟩ | ⟨hc, hev⟩
  · refine .inr (.inr ?_)
    cases hch with
    | instantiated ha => exact .applied ha .instantiated
    | initialized ha hc => exact .applied ha (.initialized hc)
    | entered ha => exact .applied ha .entered
    | enteredInitializer ha hc => exact .applied ha (.enteredInitializer hc)
  · refine .inr (.inr ?_)
    cases hr with
    | refused hr => exact .refused hr rfl
    | initializer ha hs hb hi hg => exact .applied ha (.initializer hs hb hi hg)
  · cases hc with
    | callee => exact .inl hev
    | argument hf hvs hi => exact .inr (.inl ⟨_, _, _, _, _, _, hf, hi, hvs, hev⟩)
    | body ha hs hb hi => exact .inr (.inr (.applied ha (.body hs ⟨_, _, hi, _, hb, hev⟩)))

/-- Without fuel nothing happens but the visit. -/
theorem Happens.eq_visit (h : Happens ctx 0 t s ev) : ev = .visit 0 t s := by
  cases h with
  | visit h => cases h; rfl
  | change h => cases h
  | raise h => cases h

end Lox

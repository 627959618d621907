import Lox.Store.Lemmas
import Lox.Proofs.Run.Visits

/-!
# Equations of the operations

What the operations that runs are made of come to: for each branch of an operation there is an equation
under the conditions that lead to it, and the parts of calls and class declarations that several theories
speak of have names.
-/

namespace Lox

/-! ### Operations -/

namespace Run

variable {α β : Type} (s : RunState)

theorem ask_bind (f : Store → α) (k : α → Run β) : (ask f >>= k) s = k (f s.store) s := rfl

theorem currentScope_bind (k : ScopeId → Run β) : (currentScope >>= k) s = k s.scope s := rfl

theorem callDepth_bind (k : Nat → Run β) : (callDepth >>= k) s = k s.depth s := rfl

theorem alloc_bind (f : Store → α × Store) (k : α → Run β) :
    (alloc f >>= k) s = k (f s.store).1 { s with store := (f s.store).2 } := rfl

theorem define_bind (x : String) (v : Value) (k : Unit → Run β) :
    (define x v >>= k) s = k () { s with store := s.store.define s.scope x v } := rfl

theorem ofScope_ok_bind (a : α) (k : α → Run β) : (ofScope (.ok a) >>= k) s = k a s := rfl

/-! ### Variables -/

section

variable {s : RunState} {ctx : Context} {id : NodeId} {name : Token} {d : Nat}

theorem lookUp_of_local (h : ctx.table[id]? = some d) :
    lookUp ctx id name s = ofScope (s.store.getAt s.scope d name.lexeme) s := by
  rw [lookUp, h]
  rfl

theorem lookUp_of_global {v : Value} (h : ctx.table[id]? = none)
    (hv : s.store.get? ctx.globals name.lexeme = some v) : lookUp ctx id name s = .ok v s := by
  rw [lookUp, h]
  dsimp only
  rw [ask_bind, hv]
  rfl

theorem lookUp_of_undefined (h : ctx.table[id]? = none)
    (hv : s.store.get? ctx.globals name.lexeme = none) :
    lookUp ctx id name s = .raised (.error ⟨.undefinedVariable, name⟩) s := by
  rw [lookUp, h]
  dsimp only
  rw [ask_bind, hv]
  rfl

theorem assignedScope_of_local (h : ctx.table[id]? = some d) :
    assignedScope ctx id name s = ofScope (s.store.scopeAt s.scope d) s := by
  rw [assignedScope, h]
  rfl

theorem assignedScope_of_global {e : ScopeId} (h : ctx.table[id]? = none)
    (he : s.store.owner? ctx.globals name.lexeme = some e) :
    assignedScope ctx id name s = .ok e s := by
  rw [assignedScope, h]
  dsimp only
  rw [ask_bind, he]
  rfl

theorem assignedScope_of_undefined (h : ctx.table[id]? = none)
    (he : s.store.owner? ctx.globals name.lexeme = none) :
    assignedScope ctx id name s = .raised (.error ⟨.undefinedVariable, name⟩) s := by
  rw [assignedScope, h]
  dsimp only
  rw [ask_bind, he]
  rfl

end

/-! ### Calls -/

section

variable {ctx : Context} {runBody : List Stmt → Run Completion} {paren : Token} {callee : Value}
  {c : Callable} {vs : List Value} {s : RunState}

theorem call_of_not_callable (hc : s.store.callable? callee = none) :
    call ctx runBody paren callee vs s = .raised (.error ⟨.notCallable, paren⟩) s := by
  rw [call, ask_bind, hc]
  rfl

theorem call_of_arity (hc : s.store.callable? callee = some c)
    (harity : (vs.length : Int) ≠ s.store.arity c) : call ctx runBody paren callee vs s =
      .raised (.error ⟨.arity (s.store.arity c) vs.length, paren⟩) s := by
  rw [call, ask_bind, hc]
  dsimp only
  rw [ask_bind, if_pos harity]
  rfl

theorem call_of_overflow (hc : s.store.callable? callee = some c)
    (harity : (vs.length : Int) = s.store.arity c) (hdepth : ctx.maxDepth ≤ s.depth) :
    call ctx runBody paren callee vs s =
      .raised (.error ⟨.stackOverflow ctx.maxDepth, paren⟩) s := by
  rw [call, ask_bind, hc]
  dsimp only
  rw [ask_bind, if_neg (not_not.2 harity), callDepth_bind, if_pos hdepth]
  rfl

/-- A call that is not refused invokes the callee, one call deeper. -/
theorem call_of_applies (hc : s.store.callable? callee = some c)
    (harity : (vs.length : Int) = s.store.arity c) (hdepth : s.depth < ctx.maxDepth) :
    call ctx runBody paren callee vs s = deeper (invoke runBody c vs) s := by
  rw [call, ask_bind, hc]
  dsimp only
  rw [ask_bind, if_neg (not_not.2 harity), callDepth_bind, if_neg (Nat.not_le_of_lt hdepth)]

/-- A call is an error and changes nothing, or it goes ahead. -/
theorem call_cases (ctx : Context) (runBody : List Stmt → Run Completion) (paren : Token)
    (callee : Value) (vs : List Value) (s : RunState) :
    (∃ e, call ctx runBody paren callee vs s = .raised (.error e) s) ∨
      ∃ c, s.store.callable? callee = some c ∧ (vs.length : Int) = s.store.arity c ∧
        s.depth < ctx.maxDepth ∧
        call ctx runBody paren callee vs s = deeper (invoke runBody c vs) s := by
  cases hc : s.store.callable? callee with
  | none => exact .inl ⟨_, call_of_not_callable hc⟩
  | some c =>
    by_cases harity : (vs.length : Int) = s.store.arity c
    · by_cases hdepth : s.depth < ctx.maxDepth
      · exact .inr ⟨c, rfl, harity, hdepth, call_of_applies hc harity hdepth⟩
      · exact .inl ⟨_, call_of_overflow hc harity (Nat.le_of_not_lt hdepth)⟩
    · exact .inl ⟨_, call_of_arity hc harity⟩

end

/-! ### Instances -/

section

variable {runBody : List Stmt → Run Completion} {c : ClassId} {vs : List Value} {s s₁ : RunState}
  {f g : FunctionObject}

/-- A class without an initializer hands back the instance that it has made. -/
theorem construct_of_none (h : s.store.initializer? c = none) : construct runBody c vs s =
    .ok (.inst ⟨s.store.instances.size⟩) { s with store := (s.store.newInstance c).2 } := by
  unfold construct
  rw [alloc_bind, ask_bind]
  dsimp only
  rw [Store.initializer?_newInstance, h]
  rfl

/-- A class with an initializer binds it to the new instance and calls it. -/
theorem construct_of_constructs (hc : Constructs c s f g s₁) : construct runBody c vs s =
    (callFunction runBody g vs >>= fun _ => pure (.inst ⟨s.store.instances.size⟩)) s₁ := by
  cases hc with
  | mk hi hf hg =>
    cases hi
    cases hg
    unfold construct
    rw [alloc_bind, ask_bind]
    change (s.store.newInstance _).2.initializer? _ = some _ at hf
    dsimp only
    rw [hf]
    rfl

/-- A class has no initializer, or binds it to the new instance. -/
theorem constructs_cases (c : ClassId) (s : RunState) :
    s.store.initializer? c = none ∨ ∃ f g s₁, Constructs c s f g s₁ := by
  cases hf : s.store.initializer? c with
  | none => exact .inl rfl
  | some f =>
    rw [← Store.initializer?_newInstance s.store c c] at hf
    exact .inr ⟨f, _, _, .mk rfl hf rfl⟩

end

/-! ### Class declarations -/

/-- The part of a class declaration that comes when the scope of the methods is there. -/
def declareMethods (name : Token) (superclass : Option ClassId) (methods : List FunctionDecl)
    (scope methodScope : ScopeId) : Run Unit := do
  let table ← methodTable methodScope ∅ methods
  let c ← alloc (·.newClass ⟨name.lexeme, superclass, table⟩)
  match ← ask (·.owner? scope name.lexeme) with
  | some owner => modifyStore (·.define owner name.lexeme (.cls c))
  | none => Action.fail .undefinedVariable name

theorem declareClass_none (name : Token) (methods : List FunctionDecl) :
    declareClass name none methods = (do
      define name.lexeme .nil
      let scope ← currentScope
      declareMethods name none methods scope scope) := rfl

theorem declareClass_some (name : Token) (c : ClassId) (methods : List FunctionDecl) :
    declareClass name (some c) methods = (do
      define name.lexeme .nil
      let scope ← currentScope
      let methodScope ←
        alloc (·.newScope { enclosing := some scope, values := {("super", .cls c)} })
      declareMethods name (some c) methods scope methodScope) := rfl

/-! ### The scope of a call -/

/-- Bindings with those of parameters to arguments on top. -/
def bindParams (values : Bindings) (pairs : List (Token × Value)) : Bindings :=
  pairs.foldl (fun values (param, v) => values.insert param.lexeme v) values

/-- The scope of a call, as it is entered. -/
def callScope (f : FunctionObject) (arguments : List Value) : Scope where
  enclosing := some f.closure
  values := bindParams ∅ (f.declaration.params.zip arguments)

/-- Only parameters are bound, and only to arguments. -/
theorem bindParams_cases {pairs : List (Token × Value)} {values : Bindings} {x : String} {v : Value}
    (h : (bindParams values pairs)[x]? = some v) :
    (∃ pair ∈ pairs, pair.1.lexeme = x ∧ pair.2 = v) ∨ values[x]? = some v := by
  induction pairs generalizing values with
  | nil => exact .inr h
  | cons pair pairs ih =>
    rcases ih h with ⟨other, ho, hx⟩ | h
    · exact .inl ⟨other, List.mem_cons_of_mem _ ho, hx⟩
    · rw [Std.ExtTreeMap.getElem?_insert] at h
      split at h
      · rename_i hx
        cases h
        exact .inl ⟨pair, List.mem_cons_self, Std.LawfulEqCmp.eq_of_compare hx, rfl⟩
      · exact .inr h

theorem isSome_bindParams {pairs : List (Token × Value)} {values : Bindings} {x : String} :
    ((bindParams values pairs)[x]?).isSome ↔
      x ∈ (pairs.map (·.1)).map (·.lexeme) ∨ (values[x]?).isSome := by
  induction pairs generalizing values with
  | nil => simp [bindParams]
  | cons pair pairs ih =>
    refine ih.trans ?_
    rw [List.map_cons, List.map_cons, List.mem_cons, Std.ExtTreeMap.getElem?_insert]
    by_cases hx : x = pair.1.lexeme
    · simp [hx]
    · simp [hx, Ne.symm hx]

/-- A call binds parameters to arguments and nothing else. -/
theorem callScope_cases {f : FunctionObject} {vs : List Value} {x : String} {v : Value}
    (h : (callScope f vs).values[x]? = some v) :
    x ∈ f.declaration.params.map (·.lexeme) ∧ v ∈ vs := by
  rcases bindParams_cases h with ⟨pair, hpair, rfl, rfl⟩ | h
  · obtain ⟨hp, hv⟩ := List.of_mem_zip hpair
    exact ⟨List.mem_map_of_mem hp, hv⟩
  · simp at h

/-- A call with as many arguments binds all parameters. -/
theorem isSome_callScope {f : FunctionObject} {vs : List Value}
    (hlen : f.declaration.params.length = vs.length) (x : String) :
    ((callScope f vs).values[x]?).isSome ↔ x ∈ f.declaration.params.map (·.lexeme) := by
  refine isSome_bindParams.trans ?_
  rw [List.map_fst_zip (Nat.le_of_eq hlen)]
  simp

end Run

end Lox

import Lox.Store

/-!
# What the operations on scopes do

The effect of making a scope and of binding a name, said of the three ways to look at a scope:
the scope itself (`scope?`), the scope around it (`enclosing?`) and the values it binds (`read?`).
Binding a name changes one value in one scope and no link.
-/

namespace Lox.Store

variable (st : Store)

theorem scope?_newScope (scope : Scope) (t : ScopeId) :
    (st.newScope scope).2.scope? t =
      if t = (st.newScope scope).1 then some scope else st.scope? t := by
  obtain ⟨i⟩ := t
  by_cases h : i = st.scopes.size
  · simp [scope?, newScope, h]
  · simp [scope?, newScope, h, Array.getElem?_push]

theorem scope?_define (s t : ScopeId) (name : String) (v : Value) :
    (st.define s name v).scope? t =
      if t = s then (st.scope? s).map fun scope =>
        { scope with values := scope.values.insert name v }
      else st.scope? t := by
  obtain ⟨i⟩ := s
  obtain ⟨j⟩ := t
  by_cases h : j = i
  · subst h
    simp [scope?, define, Array.getElem?_modify]
  · simp [scope?, define, Array.getElem?_modify, h, Ne.symm h]

@[simp] theorem enclosing?_define (s t : ScopeId) (name : String) (v : Value) :
    (st.define s name v).enclosing? t = st.enclosing? t := by
  unfold enclosing?
  rw [scope?_define]
  split
  · subst t
    cases st.scope? s <;> rfl
  · rfl

theorem read?_define (s t : ScopeId) (name other : String) (v : Value) :
    (st.define s name v).read? t other =
      if t = s ∧ other = name ∧ (st.scope? s).isSome then some v else st.read? t other := by
  unfold read?
  rw [scope?_define]
  by_cases ht : t = s
  · subst ht
    cases hs : st.scope? t with
    | none => simp
    | some scope =>
      by_cases hn : other = name
      · subst hn
        simp
      · simp [hn, Std.ExtTreeMap.getElem?_insert, Ne.symm hn]
  · simp [ht]

/-! ### Sizes -/

theorem lt_of_scope? {st : Store} {e : ScopeId} {scope : Scope} (h : st.scope? e = some scope) :
    e.index < st.scopes.size := (Array.getElem?_eq_some_iff.1 h).1

theorem lt_of_enclosing? {st : Store} {e e' : ScopeId} (h : st.enclosing? e = some e') :
    e.index < st.scopes.size := by
  obtain ⟨scope, hs, -⟩ := Option.bind_eq_some_iff.1 h
  exact lt_of_scope? hs

theorem lt_of_read? {st : Store} {e : ScopeId} {x : String} {v : Value}
    (h : st.read? e x = some v) : e.index < st.scopes.size := by
  obtain ⟨scope, hs, -⟩ := Option.bind_eq_some_iff.1 h
  exact lt_of_scope? hs

theorem lt_of_function? {st : Store} {g : FunctionId} {f : FunctionObject}
    (h : st.function? g = some f) : g.index < st.functions.size :=
  (Array.getElem?_eq_some_iff.1 h).1

theorem scope?_isSome_of_lt {st : Store} {e : ScopeId} (h : e.index < st.scopes.size) :
    (st.scope? e).isSome := by
  simp [scope?, h]

@[simp] theorem size_newScope (scope : Scope) :
    (st.newScope scope).2.scopes.size = st.scopes.size + 1 := by
  simp [newScope]

@[simp] theorem size_define (s : ScopeId) (x : String) (v : Value) :
    (st.define s x v).scopes.size = st.scopes.size := by
  simp [define]

/-! ### What was made last -/

theorem enclosing?_newScope (scope : Scope) (t : ScopeId) :
    (st.newScope scope).2.enclosing? t =
      if t = (st.newScope scope).1 then scope.enclosing else st.enclosing? t := by
  unfold enclosing?
  rw [scope?_newScope]
  split <;> rfl

theorem read?_newScope (scope : Scope) (t : ScopeId) (x : String) :
    (st.newScope scope).2.read? t x =
      if t = (st.newScope scope).1 then scope.values[x]? else st.read? t x := by
  unfold read?
  rw [scope?_newScope]
  split <;> rfl

@[simp] theorem read?_newScope_self (scope : Scope) (x : String) :
    (st.newScope scope).2.read? (st.newScope scope).1 x = scope.values[x]? := by
  rw [read?_newScope, if_pos rfl]

@[simp] theorem enclosing?_newScope_self (scope : Scope) :
    (st.newScope scope).2.enclosing? (st.newScope scope).1 = scope.enclosing := by
  rw [enclosing?_newScope, if_pos rfl]

theorem function?_newFunction (f : FunctionObject) (g : FunctionId) :
    (st.newFunction f).2.function? g =
      if g = (st.newFunction f).1 then some f else st.function? g := by
  obtain ⟨i⟩ := g
  by_cases h : i = st.functions.size
  · simp [function?, newFunction, h]
  · simp [function?, newFunction, h, Array.getElem?_push]

theorem class?_newClass (c : ClassObject) (d : ClassId) :
    (st.newClass c).2.class? d = if d = (st.newClass c).1 then some c else st.class? d := by
  obtain ⟨i⟩ := d
  by_cases h : i = st.classes.size
  · simp [class?, newClass, h]
  · simp [class?, newClass, h, Array.getElem?_push]

theorem instance?_newInstance (c : ClassId) (j : InstanceId) :
    (st.newInstance c).2.instance? j =
      if j = (st.newInstance c).1 then some { cls := c } else st.instance? j := by
  obtain ⟨i⟩ := j
  by_cases h : i = st.instances.size
  · simp [instance?, newInstance, h]
  · simp [instance?, newInstance, h, Array.getElem?_push]

/-- A new instance has no fields. -/
theorem field?_newInstance (c : ClassId) (j : InstanceId) (x : String) :
    (st.newInstance c).2.field? j x =
      if j = (st.newInstance c).1 then none else st.field? j x := by
  unfold field?
  rw [instance?_newInstance]
  split
  · simp
  · rfl

theorem field?_setField (i j : InstanceId) (x y : String) (v : Value) :
    (st.setField i x v).field? j y =
      if j = i ∧ y = x ∧ (st.instance? i).isSome then some v else st.field? j y := by
  obtain ⟨i⟩ := i
  obtain ⟨j⟩ := j
  by_cases hj : j = i
  · subst hj
    simp only [field?, instance?, setField, Array.getElem?_modify]
    cases st.instances[j]? with
    | none => simp
    | some object =>
      by_cases hy : y = x
      · subst hy
        simp
      · simp [hy, Std.ExtTreeMap.getElem?_insert, Ne.symm hy]
  · simp [field?, instance?, setField, Array.getElem?_modify, hj, Ne.symm hj]

/-! ### Methods -/

/-- Methods are found by looking at the classes alone. -/
theorem findMethodWithin?_congr (st st' : Store) (h : ∀ c, st'.class? c = st.class? c)
    (name : String) (n : Nat) (c : ClassId) :
    st'.findMethodWithin? name n c = st.findMethodWithin? name n c := by
  induction n generalizing c with
  | zero => rfl
  | succ n ih =>
    simp only [findMethodWithin?, h, ih]

@[simp] theorem initializer?_newInstance (c d : ClassId) :
    (st.newInstance c).2.initializer? d = st.initializer? d := by
  unfold initializer? method? findMethod?
  rw [findMethodWithin?_congr st (st.newInstance c).2 fun _ => rfl]
  rfl

/-! ### Scopes that are reached -/

/-- A scope that is reached is read as itself. -/
@[simp] theorem scopeAt_zero (s : ScopeId) : st.scopeAt s 0 = .ok s := rfl

end Lox.Store

import Lox.Proofs.Run.Ancestry
import Lox.Proofs.Run.Persistence

/-!
# Copying methods down

A method is searched from a class upwards.  A class could as well be given a copy of the methods of its
superclass when it is made, and its own methods over them: `Store.flattened` is that table, and the search
finds its entries (`Store.findMethod?_eq`).  What is stored in fields does not matter to it: writing fields
changes the fields that are written, where the last value counts (`Store.field?_write`), and nothing else.
-/

namespace Lox

/-- The method that a class keeps, of those that are declared by a name: the last one. -/
def FunctionDecl.lastNamed? (methods : List FunctionDecl) (x : String) : Option FunctionDecl :=
  (methods.filter (·.name.lexeme = x)).getLast?

theorem FunctionDecl.lastNamed?_cons (f : FunctionDecl) (fs : List FunctionDecl) (x : String) :
    lastNamed? (f :: fs) x = (lastNamed? fs x).or (if f.name.lexeme = x then some f else none) := by
  unfold lastNamed?
  rw [List.filter_cons]
  split <;> rename_i hx
  · rw [decide_eq_true_iff] at hx
    rw [← List.singleton_append, List.getLast?_append, if_pos hx]
    rfl
  · rw [decide_eq_true_iff] at hx
    rw [if_neg hx, Option.or_none]

/-- A value that is stored in a field. -/
structure FieldWrite where
  object : InstanceId
  name : String
  value : Value

/-- The value that was stored last in a field. -/
def FieldWrite.last? (ws : List FieldWrite) (i : InstanceId) (x : String) : Option Value :=
  ((ws.filter fun w => w.object = i ∧ w.name = x).getLast?).map (·.value)

namespace FieldWrite

variable {ws vs : List FieldWrite} {i : InstanceId} {x : String}

theorem last?_append : last? (ws ++ vs) i x = (last? vs i x).or (last? ws i x) := by
  unfold last?
  rw [List.filter_append, List.getLast?_append, Option.map_or]

theorem last?_singleton (w : FieldWrite) (i : InstanceId) (x : String) :
    last? [w] i x = if w.object = i ∧ w.name = x then some w.value else none := by
  by_cases h : w.object = i ∧ w.name = x <;> simp [last?, h]

theorem last?_eq_none (h : ∀ w ∈ ws, ¬ (w.object = i ∧ w.name = x)) : last? ws i x = none := by
  unfold last?
  rw [List.filter_eq_nil_iff.2 fun w hw => by simpa using h w hw]
  rfl

end FieldWrite

namespace Store

/-- The methods of a class and of at most `n - 1` of its ancestors, each table over that of the
superclass. -/
def flattenedWithin (st : Store) : Nat → ClassId → Std.ExtTreeMap String FunctionId
  | 0, _ => ∅
  | n + 1, c =>
    match st.class? c with
    | none => ∅
    | some cls =>
      match cls.superclass with
      | none => cls.methods
      | some d => st.flattenedWithin n d ∪ cls.methods

/-- The methods of a class with those it inherits. -/
def flattened (st : Store) (c : ClassId) : Std.ExtTreeMap String FunctionId :=
  st.flattenedWithin st.classes.size c

/-- Stores values in fields, one after the other. -/
def write (st : Store) (ws : List FieldWrite) : Store :=
  ws.foldl (fun st w => st.setField w.object w.name w.value) st

/-- A class has the methods that were declared, the last one of each name, as functions that close over a
scope. -/
structure DeclaredBy (st : Store) (cls : ClassObject) (methods : List FunctionDecl) (e : ScopeId) :
    Prop where
  last : ∀ x f, FunctionDecl.lastNamed? methods x = some f → ∃ mid, cls.methods[x]? = some mid ∧
    st.function? mid = some ⟨f, e, x = FunctionDecl.initializerName⟩
  nothing : ∀ x, FunctionDecl.lastNamed? methods x = none → cls.methods[x]? = none

variable {st st' : Store} {c : ClassId} {cls : ClassObject} {x : String} {n m : Nat} {g : ScopeId}

/-! ### Flattened tables -/

theorem getElem?_flattenedWithin (st : Store) (x : String) (n : Nat) (c : ClassId) :
    (st.flattenedWithin n c)[x]? = st.findMethodWithin? x n c := by
  induction n generalizing c with
  | zero => simp [flattenedWithin, findMethodWithin?]
  | succ n ih =>
    rw [flattenedWithin, findMethodWithin?]
    cases st.class? c with
    | none => simp
    | some cls =>
      dsimp only
      cases hsuper : cls.superclass with
      | none => cases cls.methods[x]? <;> rfl
      | some d =>
        dsimp only
        rw [Std.ExtTreeMap.getElem?_union, ih]
        cases cls.methods[x]? <;> simp

/-- The search from a class upwards finds what the table has. -/
theorem findMethod?_eq (st : Store) (c : ClassId) (x : String) :
    st.findMethod? c x = (st.flattened c)[x]? :=
  (getElem?_flattenedWithin st x _ c).symm

namespace Grounded

variable (h : st.Grounded g)

include h

/-- It does not matter how many ancestors are looked at, if they are enough. -/
theorem flattenedWithin_eq (hn : c.index < n) (hm : c.index < m) :
    st.flattenedWithin n c = st.flattenedWithin m c := by
  induction n generalizing m c with
  | zero => exact absurd hn (Nat.not_lt_zero _)
  | succ n ih =>
    obtain ⟨m, rfl⟩ := Nat.exists_eq_add_of_le' (Nat.lt_of_le_of_lt (Nat.zero_le _) hm)
    rw [flattenedWithin, flattenedWithin]
    cases hc : st.class? c with
    | none => rfl
    | some cls =>
      dsimp only
      cases hs : cls.superclass with
      | none => rfl
      | some d =>
        have hlt : d.index < c.index := h.supers c cls d hc hs
        dsimp only
        rw [ih (m := m) (by omega) (by omega)]

/-- A class that inherits from none has its own methods. -/
theorem flattened_of_root (hc : st.class? c = some cls) (hs : cls.superclass = none) :
    st.flattened c = cls.methods := by
  rw [flattened, h.flattenedWithin_eq (lt_of_class? hc) (Nat.lt_succ_self _), flattenedWithin, hc]
  simp only [hs]

/-- Any other class has its own methods over all those of its superclass. -/
theorem flattened_of_superclass {d : ClassId} (hc : st.class? c = some cls)
    (hs : cls.superclass = some d) : st.flattened c = st.flattened d ∪ cls.methods := by
  have hlt : c.index < st.classes.size := lt_of_class? hc
  have hd : d.index < c.index := h.supers c cls d hc hs
  rw [flattened, h.flattenedWithin_eq hlt (Nat.lt_succ_self _), flattenedWithin, hc]
  simp only [hs]
  rw [flattened, h.flattenedWithin_eq hd (Nat.lt_trans hd hlt)]

/-- What the table has are functions. -/
theorem function?_of_flattened {mid : FunctionId} (hm : (st.flattened c)[x]? = some mid) :
    ∃ f, st.function? mid = some f := by
  rw [← findMethod?_eq] at hm
  obtain ⟨k, cls, -, hk, hown⟩ := declarer_of_findMethod? hm
  exact Option.isSome_iff_exists.1 (h.methods k cls _ mid hk hown)

end Grounded

/-! ### Declarations of methods -/

/-- Methods that are made leave alone what the table has by other names. -/
theorem newMethods_of_nothing {e : ScopeId} {fs : List FunctionDecl}
    (h : FunctionDecl.lastNamed? fs x = none) :
    ∀ (table : Std.ExtTreeMap String FunctionId) (st : Store),
      (newMethods e table fs st).1[x]? = table[x]? := by
  induction fs with
  | nil => exact fun _ _ => rfl
  | cons f fs ih =>
    intro table st
    rw [FunctionDecl.lastNamed?_cons, Option.or_eq_none_iff] at h
    obtain ⟨hlater, hf⟩ := h
    have hne : f.name.lexeme ≠ x := by
      intro hx
      rw [if_pos hx] at hf
      cases hf
    refine (ih hlater _ _).trans ?_
    simp [Std.ExtTreeMap.getElem?_insert, hne]

/-- Of the methods that are made, the table has the last one of a name. -/
theorem newMethods_of_last {e : ScopeId} {f : FunctionDecl} {fs : List FunctionDecl}
    (h : FunctionDecl.lastNamed? fs x = some f) :
    ∀ (table : Std.ExtTreeMap String FunctionId) (st : Store), ∃ mid,
      (newMethods e table fs st).1[x]? = some mid ∧
        (newMethods e table fs st).2.function? mid =
          some ⟨f, e, x = FunctionDecl.initializerName⟩ := by
  induction fs with
  | nil => cases h
  | cons f' fs ih =>
    intro table st
    rw [FunctionDecl.lastNamed?_cons, Option.or_eq_some_iff] at h
    rcases h with hlater | ⟨hnone, hf⟩
    · exact ih hlater _ _
    · obtain ⟨rfl, he⟩ := Option.ite_none_right_eq_some.1 hf
      cases he
      refine ⟨⟨st.functions.size⟩, ?_, (PersistsIn.newMethods e fs _ _).functions _ _ ?_⟩
      · exact (newMethods_of_nothing hnone _ _).trans Std.ExtTreeMap.getElem?_insert_self
      · exact (function?_newFunction ..).trans (if_pos rfl)

theorem DeclaredBy.makeClass (st : Store) (name : String) (superclass : Option ClassId)
    (methods : List FunctionDecl) (e : ScopeId) : ∃ cls,
      (st.makeClass name superclass methods e).2.class? (st.makeClass name superclass methods e).1 =
        some cls ∧ cls.superclass = superclass ∧
          (st.makeClass name superclass methods e).2.DeclaredBy cls methods e := by
  refine ⟨_, (class?_newClass ..).trans (if_pos rfl), rfl, fun x f h => ?_, fun x h => ?_⟩
  · exact newMethods_of_last h ∅ st
  · refine (newMethods_of_nothing h ∅ st).trans ?_
    simp

theorem DeclaredBy.mono {methods : List FunctionDecl} {e : ScopeId} (h : st.DeclaredBy cls methods e)
    (hp : st.PersistsIn st') : st'.DeclaredBy cls methods e where
  last x f hf := by
    obtain ⟨mid, hm, hmid⟩ := h.last x f hf
    exact ⟨mid, hm, hp.functions mid _ hmid⟩
  nothing := h.nothing

/-! ### Writing fields -/

variable {w : FieldWrite} {ws : List FieldWrite} {i j : InstanceId} {y : String}

theorem write_append (st : Store) (ws vs : List FieldWrite) :
    st.write (ws ++ vs) = (st.write ws).write vs := List.foldl_append

/-- Writing fields changes nothing but the instances. -/
theorem write_same (st : Store) (ws : List FieldWrite) : (st.write ws).scopes = st.scopes ∧
    (st.write ws).functions = st.functions ∧ (st.write ws).classes = st.classes := by
  induction ws generalizing st with
  | nil => exact ⟨rfl, rfl, rfl⟩
  | cons w ws ih => exact ih _

@[simp] theorem scope?_write (e : ScopeId) : (st.write ws).scope? e = st.scope? e :=
  congrArg (·[e.index]?) (st.write_same ws).1

@[simp] theorem function?_write (id : FunctionId) : (st.write ws).function? id = st.function? id :=
  congrArg (·[id.index]?) (st.write_same ws).2.1

@[simp] theorem class?_write (c : ClassId) : (st.write ws).class? c = st.class? c :=
  congrArg (·[c.index]?) (st.write_same ws).2.2

/-- The same methods are found. -/
@[simp] theorem findMethod?_write (c : ClassId) (x : String) :
    (st.write ws).findMethod? c x = st.findMethod? c x := by
  unfold findMethod?
  rw [(st.write_same ws).2.2]
  exact findMethodWithin?_congr st (st.write ws) (fun _ => class?_write _) x _ c

@[simp] theorem method?_write (c : ClassId) (x : String) :
    (st.write ws).method? c x = st.method? c x := by
  unfold method?
  rw [findMethod?_write]
  cases st.findMethod? c x with
  | none => rfl
  | some mid => exact function?_write mid

/-- An instance stays one, of the same class. -/
theorem instance?_setField (v : Value) : ((st.setField i x v).instance? j).map (·.cls) =
    (st.instance? j).map (·.cls) := by
  unfold instance? setField
  rw [Array.getElem?_modify]
  split
  · cases st.instances[j.index]? <;> rfl
  · rfl

theorem instance?_write (st : Store) (ws : List FieldWrite) (j : InstanceId) :
    ((st.write ws).instance? j).map (·.cls) = (st.instance? j).map (·.cls) := by
  induction ws generalizing st with
  | nil => rfl
  | cons w ws ih => exact (ih _).trans (instance?_setField w.value)

/-- A field that is written has the value that is stored. -/
theorem field?_write_singleton (y : String) (h : w.object = j → (st.instance? j).isSome) :
    (st.write [w]).field? j y = (FieldWrite.last? [w] j y).or (st.field? j y) := by
  rw [FieldWrite.last?_singleton]
  refine (field?_setField ..).trans ?_
  by_cases hw : w.object = j ∧ w.name = y
  · obtain ⟨rfl, rfl⟩ := hw
    rw [if_pos ⟨rfl, rfl, h rfl⟩, if_pos ⟨rfl, rfl⟩]
    rfl
  · rw [if_neg hw, if_neg, Option.none_or]
    rintro ⟨rfl, rfl, -⟩
    exact hw ⟨rfl, rfl⟩

/-- A field has the value that was stored last. -/
theorem field?_write (ws : List FieldWrite) (hj : (st.instance? j).isSome) (y : String) :
    (st.write ws).field? j y = (FieldWrite.last? ws j y).or (st.field? j y) := by
  induction ws using List.reverseRecOn with
  | nil => rfl
  | append_singleton ws w ih =>
    have hthere : ((st.write ws).instance? j).isSome := by
      have hsame := congrArg Option.isSome (instance?_write st ws j)
      rw [Option.isSome_map, Option.isSome_map] at hsame
      exact hsame.trans hj
    rw [write_append, field?_write_singleton y fun _ => hthere, ih, FieldWrite.last?_append,
      Option.or_assoc]

/-- A property depends on its field and on the class of the instance. -/
theorem member?_eq (st : Store) (i : InstanceId) (x : String) : st.member? i x =
    (st.field? i x).elim ((((st.instance? i).map (·.cls)).bind (st.method? · x)).map .method)
      (some ∘ .field) := by
  unfold member?
  rw [Option.bind_map]
  cases st.field? i x <;> rfl

/-- A property that is not written stays what it is. -/
theorem member?_write_of_ne (h : ∀ w ∈ ws, ¬ (w.object = j ∧ w.name = y)) :
    (st.write ws).member? j y = st.member? j y := by
  have hfield : (st.write ws).field? j y = st.field? j y := by
    cases hj : st.instance? j with
    | some o => rw [field?_write ws (hj ▸ rfl), FieldWrite.last?_eq_none h, Option.none_or]
    | none =>
      have hsame := instance?_write st ws j
      rw [hj, Option.map_none, Option.map_eq_none_iff] at hsame
      rw [field?, field?, hj, hsame]
  rw [member?_eq, member?_eq, hfield, instance?_write]
  simp only [method?_write]

end Store

end Lox

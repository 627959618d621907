import Lox.Proofs.Store.Flattened
import Lox.Proofs.Run.Construction
import Lox.Proofs.Run.ThisSuper

/-!
# What a store records

The fields and the classes of a store are all made by what has been run: from a new interpreter on, each
change is made by a node of one of the programs it was given (`Interpretation.traced`).  So a field holds
the value that a node has stored in it last (`Interpretation.fields_stored`), and a class has the methods
of a declaration that was run, the last one of each name (`Interpretation.classes_declared`).
-/

namespace Lox

namespace Interpretation

/-- After a program has been run, the interpreter is given another one. -/
def Then (I J : Interpretation) : Prop := ∃ report, I.result? = some (report, J.interpreter)

/-- A program is run up to another one by the same interpreter: it is that one, or was given before. -/
def UpTo (J I : Interpretation) : Prop := Relation.ReflTransGen Then J I

/-- Changes of the runs up to that of a program lead from one store to another, and the values that are
stored in fields on the way are these, in this order. -/
inductive Stored (I : Interpretation) : List FieldWrite → Store → Store → Prop
  | nothing {st} : I.Stored [] st st
  | field {ws st st'} {J : Interpretation} {m id object} {name : Token} {value s i s₁ v s₂}
      (h : I.Stored ws st st') (hJ : J.UpTo I)
      (hv : J.Visits (m + 1) (.expr (.set id object name value)) s)
      (ho : evaluate J.context m object s = .ok (.inst i) s₁)
      (he : evaluate J.context m value s₁ = .ok v s₂) (hst : s₂.store = st') :
      I.Stored (ws ++ [⟨i, name.lexeme, v⟩]) st (st'.write [⟨i, name.lexeme, v⟩])
  | other {ws st st' st''} {J : Interpretation} {m t s} (h : I.Stored ws st st') (hJ : J.UpTo I)
      (hv : J.Visits (m + 1) t s) (hc : Changes J.context m t s st' st'')
      (ht : ∀ id object name value, t ≠ .expr (.set id object name value)) : I.Stored ws st st''

/-- A class was made by a declaration in the runs up to that of a program, and its methods are the last
ones of their names in the declaration. -/
def Declared (I : Interpretation) (st : Store) (k : ClassId) (cls : ClassObject) : Prop :=
  ∃ (J : Interpretation) (m : Nat) (s : RunState) (id : NodeId) (name : Token)
    (superclass : Option VarRef) (methods : List FunctionDecl) (e : ScopeId), J.UpTo I ∧
    J.Visits (m + 1) (.stmt (.classDecl id name superclass methods)) s ∧
      MakesClass J.context m (.stmt (.classDecl id name superclass methods)) s cls.superclass e k ∧
        st.DeclaredBy cls methods e

end Interpretation

/-! ### One change -/

section

variable {ctx : Context} {n : Nat} {t : Part} {s : RunState} {st st' : Store}

theorem Store.field?_newInstance_eq (st : Store) (c : ClassId) (i : InstanceId) (x : String) :
    (st.newInstance c).2.field? i x = st.field? i x := by
  rw [field?_newInstance]
  split
  · rename_i hi
    subst hi
    have hnone : st.instance? (st.newInstance c).1 = none := Array.getElem?_eq_none (Nat.le_refl _)
    rw [field?, hnone]
    rfl
  · rfl

/-- Only a node that sets a field changes one. -/
theorem Changes.field?_eq (h : Changes ctx n t s st st')
    (ht : ∀ id object name value, t ≠ .expr (.set id object name value)) (i : InstanceId) (x : String) :
    st'.field? i x = st.field? i x := by
  cases h with
  | fieldSet => exact absurd rfl (ht _ _ _ _)
  | instantiated => exact Store.field?_newInstance_eq ..
  | initialized _ hc =>
    cases hc with
    | mk hi _ hg =>
      cases hi
      cases hg
      rfl
  | @enclosed _ _ _ _ _ c _ hc => cases c <;> rfl
  | made =>
    exact congrArg (fun instances => (instances[i.index]?).bind (·.fields[x]?))
      (Store.newMethods_same ..).2.2
  | _ => rfl

/-- Only a declaration makes a class. -/
theorem Changes.class?_cases (h : Changes ctx n t s st st') {k : ClassId} {cls : ClassObject}
    (hk : st'.class? k = some cls) : st.class? k = some cls ∨ ∃ id name superclass methods e,
      t = .stmt (.classDecl id name superclass methods) ∧ MakesClass ctx n t s cls.superclass e k ∧
        st'.DeclaredBy cls methods e := by
  cases h with
  | initialized _ hc =>
    cases hc with
    | mk hi _ hg =>
      cases hi
      cases hg
      exact .inl hk
  | @enclosed _ _ _ _ _ c _ hc =>
    cases c with
    | none => exact .inl hk
    | some c => exact .inl hk
  | @made id name superclass methods _ c _ e st₁ hc he =>
    rcases Store.class?_makeClass hk with hold | ⟨rfl, -⟩
    · exact .inl hold
    · obtain ⟨cls', hcls', hsuper, hdecl⟩ := Store.DeclaredBy.makeClass st name.lexeme c methods e
      obtain rfl := Option.some.inj (hk.symm.trans hcls')
      subst hsuper
      exact .inr ⟨id, name, superclass, methods, e, rfl, .mk hc he, hdecl⟩
  | _ => exact .inl hk

end

/-! ### All changes -/

namespace Interpretation

variable {registry : NativeRegistry} {config : Config} {I J : Interpretation} {st st' st'' : Store}

/-- If each change goes up in some preorder, each store that is reached is above one that holds nothing but
natives. -/
theorem traced {R : Store → Store → Prop} (refl : ∀ st, R st st)
    (trans : ∀ {st st' st''}, R st st' → R st' st'' → R st st'')
    (hstep : ∀ {J : Interpretation} {m t s st st'}, Interpreter.Reachable registry config J.interpreter →
      J.UpTo I → J.Visits (m + 1) t s → Changes J.context m t s st st' → R st st')
    (h : Interpreter.Reachable registry config I.interpreter) (hst : I.Reaches st) :
    ∃ st₀ : Store, st₀.OnlyNatives ∧ R st₀ st := by
  -- the interpreter of each run has come from a new one
  have hfirst : ∀ {i}, Interpreter.Reachable registry config i → ∀ J : Interpretation,
      J.interpreter = i → J.UpTo I → ∃ st₀ : Store, st₀.OnlyNatives ∧ R st₀ i.store := by
    intro i hi
    induction hi with
    | create hcreate =>
      obtain ⟨st, hinstall, rfl⟩ := Interpreter.create_eq hcreate
      exact fun _ _ _ => ⟨st, (Store.onlyNatives_newScope.install hinstall).1, refl st⟩
    | @interpret K report i hK hr ih =>
      rintro J rfl hJ
      have hKI : K.UpTo I := .head ⟨report, hr⟩ hJ
      obtain ⟨st₀, hnew, hup⟩ := ih K rfl hKI
      obtain ⟨last, hall, -⟩ := K.between refl trans (hstep hK hKI)
      exact ⟨st₀, hnew, trans hup (hall _ (.ended hr)).1⟩
  obtain ⟨st₀, hnew, hup⟩ := hfirst h I rfl .refl
  obtain ⟨last, hall, -⟩ := I.between refl trans (hstep h .refl)
  exact ⟨st₀, hnew, trans hup (hall st hst).1⟩

theorem Stored.trans {ws vs : List FieldWrite} (h : I.Stored ws st st') (h' : I.Stored vs st' st'') :
    I.Stored (ws ++ vs) st st'' := by
  induction h' with
  | nothing =>
    rw [List.append_nil]
    exact h
  | field _ hJ hv ho he hst ih =>
    rw [← List.append_assoc]
    exact .field (ih h) hJ hv ho he hst
  | other _ hJ hv hc ht ih => exact .other (ih h) hJ hv hc ht

/-! ### Fields -/

/-- The fields of a later store are what they were, but for the values that are stored on the way. -/
def FieldsFollow (I : Interpretation) (st st' : Store) : Prop :=
  ∃ ws, I.Stored ws st st' ∧ ∀ i x, st'.field? i x = (FieldWrite.last? ws i x).or (st.field? i x)

theorem FieldsFollow.refl (st : Store) : I.FieldsFollow st st := ⟨[], .nothing, fun _ _ => rfl⟩

theorem FieldsFollow.trans (h : I.FieldsFollow st st') (h' : I.FieldsFollow st' st'') :
    I.FieldsFollow st st'' := by
  obtain ⟨ws, hws, hfields⟩ := h
  obtain ⟨vs, hvs, hfields'⟩ := h'
  refine ⟨ws ++ vs, hws.trans hvs, fun i x => ?_⟩
  rw [hfields', hfields, FieldWrite.last?_append, Option.or_assoc]

theorem FieldsFollow.of_changes {m : Nat} {t : Part} {s : RunState}
    (hJ : Interpreter.Reachable registry config J.interpreter) (hup : J.UpTo I)
    (hv : J.Visits (m + 1) t s) (hc : Changes J.context m t s st st') : I.FieldsFollow st st' := by
  by_cases hset : ∃ id object name value, t = .expr (.set id object name value)
  · obtain ⟨id, object, name, value, rfl⟩ := hset
    cases hc with
    | @fieldSet _ _ _ _ _ i s₁ v s₂ ho he =>
      refine ⟨[⟨i, name.lexeme, v⟩], .field .nothing hup hv ho he rfl, fun j y => ?_⟩
      -- an object that is evaluated to is there
      have hi : (s₂.store.instance? i).isSome := by
        have hp : s₁.store.PersistsIn s₂.store := evaluate_persists he
        obtain ⟨o, ho⟩ := Option.isSome_iff_exists.1 ((hv.grounded hJ).evaluated ho).2
        obtain ⟨o', ho', -⟩ := hp.instances i o ho
        exact Option.isSome_iff_exists.2 ⟨o', ho'⟩
      refine Store.field?_write_singleton (w := ⟨i, name.lexeme, v⟩) y ?_
      rintro rfl
      exact hi
  · have hne : ∀ id object name value, t ≠ .expr (.set id object name value) :=
      fun id object name value ht => hset ⟨id, object, name, value, ht⟩
    refine ⟨[], .other .nothing hup hv hc hne, fun i x => ?_⟩
    rw [hc.field?_eq hne]
    rfl

/-- Each field holds the value that was stored in it last. -/
theorem fields_stored (h : Interpreter.Reachable registry config I.interpreter) (hst : I.Reaches st) :
    ∃ st₀ ws, st₀.OnlyNatives ∧ I.Stored ws st₀ st ∧
      ∀ i x, st.field? i x = FieldWrite.last? ws i x := by
  obtain ⟨st₀, hnew, ws, hws, hfields⟩ :=
    traced (R := I.FieldsFollow) .refl .trans .of_changes h hst
  refine ⟨st₀, ws, hnew, hws, fun i x => ?_⟩
  rw [hfields, hnew.fields, Option.or_none]

/-! ### Classes -/

/-- The classes of a later store are those that were there, and those that are declared on the way. -/
structure ClassesFollow (I : Interpretation) (st st' : Store) : Prop where
  persists : st.PersistsIn st'
  class?_cases : ∀ k cls, st'.class? k = some cls → st.class? k = some cls ∨ I.Declared st' k cls

theorem Declared.mono {k : ClassId} {cls : ClassObject} (h : I.Declared st k cls)
    (hp : st.PersistsIn st') : I.Declared st' k cls := by
  obtain ⟨J, m, s, id, name, superclass, methods, e, hup, hv, hmade, hdecl⟩ := h
  exact ⟨J, m, s, id, name, superclass, methods, e, hup, hv, hmade, hdecl.mono hp⟩

theorem ClassesFollow.refl (st : Store) : I.ClassesFollow st st := ⟨.refl st, fun _ _ hk => .inl hk⟩

theorem ClassesFollow.trans (h : I.ClassesFollow st st') (h' : I.ClassesFollow st' st'') :
    I.ClassesFollow st st'' := by
  refine ⟨h.persists.trans h'.persists, fun k cls hk => ?_⟩
  rcases h'.class?_cases k cls hk with hmid | hdecl
  · exact (h.class?_cases k cls hmid).imp_right (·.mono h'.persists)
  · exact .inr hdecl

theorem ClassesFollow.of_changes {m : Nat} {t : Part} {s : RunState} (hup : J.UpTo I)
    (hv : J.Visits (m + 1) t s) (hc : Changes J.context m t s st st') : I.ClassesFollow st st' := by
  refine ⟨hc.persists, fun k cls hk => ?_⟩
  rcases hc.class?_cases hk with hold | ⟨id, name, superclass, methods, e, rfl, hmade, hdecl⟩
  · exact .inl hold
  · exact .inr ⟨J, m, s, id, name, superclass, methods, e, hup, hv, hmade, hdecl⟩

/-- Each class was made by a declaration. -/
theorem classes_declared (h : Interpreter.Reachable registry config I.interpreter) (hst : I.Reaches st)
    {k : ClassId} {cls : ClassObject} (hk : st.class? k = some cls) : I.Declared st k cls := by
  obtain ⟨st₀, hnew, hfollow⟩ := traced (R := I.ClassesFollow) .refl .trans (fun _ => .of_changes) h hst
  rcases hfollow.class?_cases k cls hk with hold | hdecl
  · rw [hnew.classes] at hold
    cases hold
  · exact hdecl

end Interpretation

end Lox

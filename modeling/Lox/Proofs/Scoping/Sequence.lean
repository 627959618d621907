import Lox.Proofs.Scoping.Addresses

/-!
# Statements one after the other

After a statement that stands outside of all scopes the resolver is as it was before, apart from its
table and its errors.  So the table and the errors of a program are those of its statements, and those
of two programs one after the other are put together from those of the two.
-/

namespace Lox

theorem placesOfBody_append (Γ : Nesting) (ss ts : List Stmt) :
    placesOfBody Γ (ss ++ ts) = placesOfBody Γ ss ++ placesOfBody (Γ.afterAll ss) ts := by
  induction ss generalizing Γ with
  | nil => rfl
  | cons s ss ih =>
    rw [List.cons_append, placesOfBody, placesOfBody, ih, List.append_assoc]
    rfl

/-- The entries of some nodes, on top of a table. -/
theorem Place.foldl_record_eq_union (ps : List Place) (table : Resolution) :
    ps.foldl record table = table ∪ ps.foldl record ∅ := by
  induction ps using List.reverseRecOn with
  | nil =>
    refine Std.ExtTreeMap.ext_getElem? fun id => ?_
    simp [Std.ExtTreeMap.getElem?_union]
  | append_singleton ps P ih =>
    refine Std.ExtTreeMap.ext_getElem? fun id => ?_
    rw [List.foldl_concat, List.foldl_concat, getElem?_record, Std.ExtTreeMap.getElem?_union,
      getElem?_record, ih, Std.ExtTreeMap.getElem?_union]
    split
    · rename_i h
      obtain ⟨d, hd⟩ := Option.isSome_iff_exists.1 h.2
      rw [hd, Option.some_or]
    · rfl

namespace Program

theorem places_append (p q : Program) : places (p ++ q) = p.places ++ q.places := by
  rw [places, placesOfBody_append, Nesting.afterAll_of_nil]
  rfl

theorem errors_append (p q : Program) :
    (p ++ q).resolve.errors = p.resolve.errors ++ q.resolve.errors := by
  rw [resolve_errors, places_append, List.flatMap_append, resolve_errors, resolve_errors]

theorem table_append (p q : Program) :
    (p ++ q).resolve.table = p.resolve.table ∪ q.resolve.table := by
  rw [resolve_table, places_append, List.foldl_append, Place.foldl_record_eq_union, resolve_table,
    resolve_table]

theorem hasErrors_append (p q : Program) :
    (p ++ q).resolve.hasErrors = (p.resolve.hasErrors || q.resolve.hasErrors) := by
  rw [Resolver.hasErrors, Resolver.hasErrors, Resolver.hasErrors, errors_append]
  cases p.resolve.errors <;> simp

end Program

end Lox

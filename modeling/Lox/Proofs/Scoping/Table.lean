import Lox.Proofs.Scoping.Declarations
import Lox.Proofs.Check

/-!
# The table is lexical scope

What the resolver records is what lexical scope says by position, for every program and whether or
not it breaks static rules.
-/

namespace Lox

theorem Part.entry?_of_ne_this (Γ : Nesting) {t : Part}
    (h : ∀ id keyword, t ≠ .expr (.this id keyword)) :
    t.entry? Γ = t.looksUp?.bind Γ.distance? := by
  cases t with
  | expr e =>
    cases e with
    | this id keyword => exact absurd rfl (h id keyword)
    | _ => rfl
  | _ => rfl

namespace Program

variable {p : Program} {a : Address}

theorem classKind_ne_none_iff {Γ : Nesting} (h : p.Agrees a Γ) :
    Γ.classKind ≠ .none ↔ p.InClass a := by
  rw [Ne, Nesting.classKind_eq_none_iff, InClass]
  unfold Agrees at h
  generalize p.regions a = rs at h
  induction h with
  | nil => simp
  | @cons f r _ _ hf _ ih =>
    rw [List.forall_mem_cons, hf.1, List.exists_mem_cons_iff, ← ih]
    cases r.opener.isThis <;> simp

/-- What a node contributes is the first region that has the name it looks up. -/
theorem entry?_eq_some_iff {P : Place} (h : p.place? a = some P) (d : Nat) :
    P.entry? = some d ↔ ∃ x, p.LooksUp a x ∧ p.FirstWith a x d := by
  have hag := agrees_of_place? h
  have hpart := part?_of_place? h
  have hlook : ∀ x, p.LooksUp a x ↔ P.part.looksUp? = some x ∧
      ∀ id keyword, P.part = .expr (.this id keyword) → p.InClass a := by
    intro x
    simp [LooksUp, hpart]
  obtain ⟨Γ, t⟩ := P
  simp only [hlook, ← distance?_eq_some_iff hag]
  have hplain : (∀ id keyword, t ≠ .expr (.this id keyword)) →
      (Place.entry? ⟨Γ, t⟩ = some d ↔ ∃ x, (t.looksUp? = some x ∧
        ∀ id keyword, t = .expr (.this id keyword) → p.InClass a) ∧ Γ.distance? x = some d) := by
    intro ht
    rw [Place.entry?, Part.entry?_of_ne_this Γ ht, Option.bind_eq_some_iff]
    exact exists_congr fun x => and_congr_left' (iff_self_and.2 fun _ id k hk => absurd hk (ht id k))
  cases t with
  | expr e =>
    cases e with
    | this id keyword =>
      have hclass := classKind_ne_none_iff hag
      cases hc : Γ.classKind with
      | none => simp_all [Place.entry?, Part.entry?]
      | plain => simp_all [Place.entry?, Part.entry?, Part.looksUp?]
      | subclass => simp_all [Place.entry?, Part.entry?, Part.looksUp?]
    | _ => exact hplain (by simp)
  | _ => exact hplain (by simp)

/-- The table gives a node the number of the first region that has its name, and knows no other
nodes; in particular it never knows a variable that is the target of an assignment. -/
theorem table_eq_lexical_scope (h : DistinctNodes [p]) :
    (∀ a t id d, p.part? a = some t → t.id? = some id →
      (p.resolve.table[id]? = some d ↔ ∃ x, p.LooksUp a x ∧ p.FirstWith a x d)) ∧
    (∀ id d, p.resolve.table[id]? = some d → ∃ a t, p.part? a = some t ∧ t.id? = some id) ∧
    (∀ a id ref equals value, p.part? a = some (.expr (.assign id (.var ref) equals value)) →
      p.resolve.table[ref.id]? = none) := by
  refine ⟨?_, ?_, ?_⟩
  · intro a t id d ht hid
    obtain ⟨Γ, hP⟩ := exists_place? ht
    rw [entry_eq h hP hid, entry?_eq_some_iff hP]
  · intro id d hd
    obtain ⟨a, P, hP, hid, -⟩ := exists_place_of_entry hd
    exact ⟨a, P.part, part?_of_place? hP, hid⟩
  · intro a id ref equals value ha
    cases hd : p.resolve.table[ref.id]? with
    | none => rfl
    | some d =>
      -- the identity of the target belongs to the assignment, so no node has it as its own
      exfalso
      obtain ⟨b, ⟨Γ, t⟩, hP, hid, -⟩ := exists_place_of_entry hd
      have hb := part?_of_place? hP
      obtain ⟨-, rfl⟩ := h.unique p List.mem_cons_self p List.mem_cons_self a b _ _ ha hb ref.id
        (by simp [Part.ids, Expr.asVariable?]) (Part.id?_mem_ids hid)
      rw [ha] at hb
      cases hb
      have hnodup := h.nodup p List.mem_cons_self a _ ha
      cases hid
      simp [Part.ids, Expr.asVariable?] at hnodup

/-- A block with a class `A` and a subclass `B` of it, whose method `m` reads `super.m`. -/
def inheritedRead : Program :=
  [.block 0
    [.classDecl 1 ⟨.identifier, "A", .nil, 1⟩ none [],
     .classDecl 2 ⟨.identifier, "B", .nil, 2⟩ (some ⟨3, ⟨.identifier, "A", .nil, 2⟩⟩)
      [⟨4, ⟨.identifier, "m", .nil, 3⟩, [⟨.identifier, "x", .nil, 3⟩],
        [.expression 5 (.super 6 ⟨.kwSuper, "super", .nil, 4⟩ ⟨.identifier, "m", .nil, 4⟩)]⟩]]]

/-- The scope with `super` lies around that of `this`, which lies around the method. -/
theorem inheritedRead_super :
    DistinctNodes [inheritedRead] ∧ inheritedRead.resolve.table[6]? = some 2 ∧
      ∃ x, inheritedRead.LooksUp [0, 1, 1, 0, 0] x ∧
        inheritedRead.FirstWith [0, 1, 1, 0, 0] x 2 := by
  have h : DistinctNodes [inheritedRead] := .of_within 5 (by decide) (by decide)
  have htable : inheritedRead.resolve.table[6]? = some 2 := by decide
  exact ⟨h, htable, ((table_eq_lexical_scope h).1 _ _ 6 2 rfl rfl).1 htable⟩

end Program

end Lox

import Mathlib.Data.List.Nodup
import Lox.Proofs.Scoping.Addresses

/-!
# The order of a walk

The addresses of the nodes of a program, in the order in which a walk acts on them
(`Program.visits`).  A node comes before the nodes inside of it, and these come in the order of the
text, with two exceptions: the value of an assignment comes before the assignment itself, and the
value that a property is set to before the object.

Every node is in the list exactly once, and the places of a program are those of the listed
addresses (`Program.places_eq_visits`).
-/

namespace Lox

namespace Part

/-- The children that are visited before the part itself, by number. -/
def visitedBefore : Part → List Nat
  | expr (.assign ..) => [0]
  | _ => []

/-- The children that are visited after the part itself, by number. -/
def visitedAfter : Part → List Nat
  | expr (.assign _ target _ _) =>
    match target.asVariable? with
    | some _ => []
    | none => [1]
  | expr (.set ..) => [1, 0]
  | t => List.range t.children.length

/-- Every child is visited once. -/
theorem visited_perm (t : Part) :
    (t.visitedBefore ++ t.visitedAfter).Perm (List.range t.children.length) := by
  cases t with
  | expr e =>
    cases e with
    | assign id target equals value =>
      cases ht : target.asVariable? with
      | some ref => simp [visitedBefore, visitedAfter, children, Expr.children, ht]
      | none => simp [visitedBefore, visitedAfter, children, Expr.children, ht, List.range_succ]
    | set id object name value =>
      exact List.Perm.swap 0 1 []
    | _ => exact List.Perm.refl _
  | _ => exact List.Perm.refl _

/-- What the numbered children of a part contribute, in their order. -/
def overChildren {α : Type} (t : Part) (numbers : List Nat) (f : Nat → Part → List α) : List α :=
  numbers.flatMap fun i => ((t.children[i]?).map (f i)).getD []

/-- The part itself, if it is a node. -/
def itself (t : Part) : List Address := if t.id?.isSome then [[]] else []

/-- The addresses of the nodes of a part, in the order in which they are visited. -/
def visits (t : Part) : List Address :=
  let below := fun i => match _ : t.children[i]? with
    | some c => c.visits.map (i :: ·)
    | none => []
  t.visitedBefore.flatMap below ++ t.itself ++ t.visitedAfter.flatMap below
termination_by t
decreasing_by exact sizeOf_child_lt (List.mem_of_getElem? ‹_›)

theorem visits_eq (t : Part) :
    t.visits = t.overChildren t.visitedBefore (fun i c => c.visits.map (i :: ·)) ++ t.itself ++
      t.overChildren t.visitedAfter (fun i c => c.visits.map (i :: ·)) := by
  have hbelow : ∀ numbers : List Nat, (numbers.flatMap fun i => match _ : t.children[i]? with
      | some c => visits c |>.map (i :: ·)
      | none => []) = t.overChildren numbers fun i c => c.visits.map (i :: ·) := by
    intro numbers
    refine congrArg numbers.flatMap (funext fun i => ?_)
    split
    · rename_i c hc
      rw [hc]
      rfl
    · rename_i hc
      rw [hc]
      rfl
  rw [visits, hbelow, hbelow]

/-! ### Every node once -/

theorem mem_overChildren {α : Type} {t : Part} {numbers : List Nat} {f : Nat → Part → List α} {x : α} :
    x ∈ t.overChildren numbers f ↔
      ∃ i ∈ numbers, ∃ c, t.children[i]? = some c ∧ x ∈ f i c := by
  rw [overChildren, List.mem_flatMap]
  refine exists_congr fun i => and_congr_right fun _ => ?_
  cases t.children[i]? with
  | none => simp
  | some c => simp

theorem overChildren_append {α : Type} (t : Part) (numbers more : List Nat) (f : Nat → Part → List α) :
    t.overChildren (numbers ++ more) f = t.overChildren numbers f ++ t.overChildren more f :=
  List.flatMap_append

/-- Apart from the order, the nodes of a part are itself and the nodes of its children. -/
theorem visits_perm (t : Part) :
    t.visits.Perm (t.itself ++ t.overChildren (List.range t.children.length)
      fun i c => c.visits.map (i :: ·)) := by
  rw [visits_eq]
  refine (List.perm_append_comm.append_right _).trans ?_
  rw [List.append_assoc, ← overChildren_append]
  exact (t.visited_perm.flatMap_right _).append_left _

theorem mem_itself {t : Part} {a : Address} : a ∈ t.itself ↔ a = [] ∧ t.id?.isSome := by
  unfold itself
  split <;> simp_all

/-- The listed addresses are those of the nodes. -/
theorem mem_visits (t : Part) : ∀ {a : Address},
    a ∈ t.visits ↔ ∃ u, t.at? a = some u ∧ u.id?.isSome := by
  induction t using children_induction with
  | step t ih =>
    intro a
    rw [t.visits_perm.mem_iff, List.mem_append, mem_itself, mem_overChildren]
    constructor
    · rintro (⟨rfl, hid⟩ | ⟨i, -, c, hc, ha⟩)
      · exact ⟨t, rfl, hid⟩
      · obtain ⟨b, hb, rfl⟩ := List.mem_map.1 ha
        obtain ⟨u, hu, hid⟩ := (ih i c hc).1 hb
        exact ⟨u, by rw [at?_cons, hc]; exact hu, hid⟩
    · rintro ⟨u, hu, hid⟩
      cases a with
      | nil =>
        cases hu
        exact .inl ⟨rfl, hid⟩
      | cons i b =>
        obtain ⟨c, hc, hu⟩ := Option.bind_eq_some_iff.1 hu
        have hi := (List.getElem?_eq_some_iff.1 hc).1
        exact .inr ⟨i, List.mem_range.2 hi, c, hc, List.mem_map_of_mem ((ih i c hc).2 ⟨u, hu, hid⟩)⟩

/-- No node is listed twice. -/
theorem nodup_visits (t : Part) : t.visits.Nodup := by
  induction t using children_induction with
  | step t ih =>
    rw [t.visits_perm.nodup_iff, List.nodup_append]
    refine ⟨?_, ?_, ?_⟩
    · unfold itself
      split <;> simp
    · refine List.nodup_flatMap.2 ⟨fun i _ => ?_, ?_⟩
      · cases hc : t.children[i]? with
        | none => simp
        | some c => exact (ih i c hc).map fun a b h => (List.cons.inj h).2
      · refine List.nodup_range.imp fun {i j} hij => ?_
        intro a hi hj
        cases hci : t.children[i]? with
        | none => simp [hci] at hi
        | some c =>
          cases hcj : t.children[j]? with
          | none => simp [hcj] at hj
          | some d =>
            simp only [hci, hcj, Option.map_some, Option.getD_some, List.mem_map] at hi hj
            obtain ⟨b, -, rfl⟩ := hi
            obtain ⟨b', -, hb'⟩ := hj
            exact hij (List.cons.inj hb').1.symm
    · rintro a ha b hb rfl
      obtain ⟨rfl, -⟩ := mem_itself.1 ha
      obtain ⟨i, -, c, -, hb⟩ := mem_overChildren.1 hb
      simp at hb

/-! ### The places in the order of the walk -/

variable {Γ Δ : Nesting}

theorem overChildren_stmts {t : Part} {ss : List Stmt} (hc : t.children = ss.map stmt)
    (he : ∀ i, Γ.enter t i = Δ.afterAll (ss.take i)) :
    t.overChildren (List.range t.children.length) (fun i c => c.places (Γ.enter t i)) =
      placesOfBody Δ ss := by
  simp only [overChildren, hc, he, List.length_map]
  clear he hc
  induction ss generalizing Δ with
  | nil => rfl
  | cons s ss ih =>
    rw [List.length_cons, List.range_succ_eq_map, List.flatMap_cons, List.flatMap_map, placesOfBody]
    exact congrArg (s.places Δ ++ ·) ih

theorem overChildren_exprs {t : Part} (es : List Expr) (hc : t.children = es.map expr)
    (he : ∀ i, Γ.enter t i = Δ) :
    t.overChildren (List.range t.children.length) (fun i c => c.places (Γ.enter t i)) =
      es.flatMap (·.places Δ) := by
  simp only [overChildren, hc, he, List.length_map]
  clear he hc
  induction es with
  | nil => rfl
  | cons e es ih =>
    rw [List.length_cons, List.range_succ_eq_map, List.flatMap_cons, List.flatMap_map, List.flatMap_cons]
    exact congrArg (e.places Δ ++ ·) ih

theorem placesOfExprs_eq (es : List Expr) : placesOfExprs Γ es = es.flatMap (·.places Γ) := by
  induction es with
  | nil => rfl
  | cons e es ih => rw [placesOfExprs, ih, List.flatMap_cons]

theorem placesOfMethods_eq (fs : List FunctionDecl) :
    placesOfMethods Γ fs = (List.range fs.length).flatMap fun i =>
      (((fs.map method)[i]?).map (·.places Γ)).getD [] := by
  induction fs with
  | nil => rfl
  | cons f fs ih =>
    rw [List.length_cons, List.range_succ_eq_map, List.flatMap_cons, List.flatMap_map, placesOfMethods, ih]
    rfl

/-- The places of a part are itself and those of its children, in the order of the visits. -/
theorem places_eq (Γ : Nesting) (t : Part) :
    t.places Γ = t.overChildren t.visitedBefore (fun i c => c.places (Γ.enter t i)) ++
      (if t.id?.isSome then [⟨Γ, t⟩] else []) ++
      t.overChildren t.visitedAfter (fun i c => c.places (Γ.enter t i)) := by
  cases t with
  | program p => exact (overChildren_stmts rfl fun _ => rfl).symm
  | method f =>
    refine congrArg (Place.mk Γ (.method f) :: ·) ?_
    rw [placesInFunction_eq]
    exact (overChildren_stmts rfl fun _ => rfl).symm
  | expr e =>
    cases e with
    | assign id target equals value =>
      cases ht : target.asVariable? with
      | some ref =>
        simp [Part.places, Expr.places, overChildren, visitedBefore, visitedAfter, children,
          Expr.children, ht, id?, Nesting.enter]
      | none =>
        simp [Part.places, Expr.places_assign_of_none ht, overChildren, visitedBefore, visitedAfter,
          children, Expr.children, ht, id?, Nesting.enter]
    | set id object name value =>
      simp [Part.places, Expr.places, overChildren, visitedBefore, visitedAfter, children,
        Expr.children, id?, Nesting.enter]
    | call id callee paren arguments =>
      refine congrArg (Place.mk Γ _ :: ·) ?_
      rw [placesOfExprs_eq, ← List.flatMap_cons]
      exact (overChildren_exprs (callee :: arguments) rfl fun _ => rfl).symm
    | _ => simp [Part.places, Expr.places, overChildren, visitedBefore, visitedAfter, children,
        Expr.children, id?, Nesting.enter, List.range_succ]
  | stmt s =>
    cases s with
    | block id body =>
      exact congrArg (Place.mk Γ _ :: ·) (overChildren_stmts rfl fun _ => rfl).symm
    | varDecl id name initializer =>
      exact congrArg (Place.mk Γ _ :: ·) (overChildren_exprs initializer.toList rfl fun _ => rfl).symm
    | branch id condition thenBranch elseBranch =>
      cases elseBranch <;> simp [Part.places, Stmt.places, overChildren, visitedBefore, visitedAfter,
        children, id?, Nesting.enter, List.range_succ]
    | function f =>
      refine congrArg (Place.mk Γ (.stmt (.function f)) :: ·) ?_
      rw [placesInFunction_eq]
      exact (overChildren_stmts rfl fun _ => rfl).symm
    | ret id keyword value =>
      exact congrArg (Place.mk Γ _ :: ·) (overChildren_exprs value.toList rfl fun _ => rfl).symm
    | classDecl id name superclass methods =>
      refine congrArg (Place.mk Γ _ :: ·) ?_
      rw [placesOfMethods_eq]
      cases superclass with
      | none => simp [overChildren, visitedAfter, children, Expr.places?, Nesting.enter]
      | some ref =>
        simp [overChildren, visitedAfter, children, Expr.places?, Nesting.enter, Part.places,
          List.range_succ_eq_map, List.flatMap_map]
    | _ => simp [Part.places, Stmt.places, overChildren, visitedBefore, visitedAfter, children, id?,
        Nesting.enter, List.range_succ]

theorem places_eq_visits (t : Part) : ∀ Γ : Nesting, t.places Γ = t.visits.filterMap (t.place? Γ) := by
  induction t using children_induction with
  | step t ih =>
    intro Γ
    have hchildren : ∀ numbers, (t.overChildren numbers fun i c => c.visits.map (i :: ·)).filterMap
        (t.place? Γ) = t.overChildren numbers fun i c => c.places (Γ.enter t i) := by
      intro numbers
      rw [overChildren, List.filterMap_flatMap]
      refine congrArg numbers.flatMap (funext fun i => ?_)
      cases hc : t.children[i]? with
      | none => rfl
      | some c =>
        show (c.visits.map (i :: ·)).filterMap (t.place? Γ) = c.places (Γ.enter t i)
        rw [List.filterMap_map, ih i c hc]
        refine List.filterMap_congr fun a _ => ?_
        rw [Function.comp, place?_cons, hc]
        rfl
    rw [visits_eq, List.filterMap_append, List.filterMap_append, hchildren, hchildren, places_eq]
    congr 2
    unfold itself
    split <;> rfl

end Part

/-! ### Programs -/

namespace Program

variable (p : Program)

/-- The addresses of the nodes of a program, in the order in which a walk acts on them. -/
def visits : List Address := (Part.program p).visits

theorem places_eq_visits : p.places = p.visits.filterMap p.place? :=
  (Part.program p).places_eq_visits []

theorem nodup_visits : p.visits.Nodup := (Part.program p).nodup_visits

theorem mem_visits {a : Address} : a ∈ p.visits ↔ ∃ t, p.part? a = some t ∧ t.id?.isSome :=
  (Part.program p).mem_visits

end Program

end Lox

import Lox.Proofs.Scoping.Walk

/-!
# Places and addresses

The nodes a walk comes to are the parts of the program, each at the nesting its address gives it
(`Program.mem_places_iff`).  When no two nodes share an identity, the table says of every node what
the node contributes, and of nothing else anything.
-/

namespace Lox

/-- The places of a part and of all parts inside of it. -/
def Part.places (Γ : Nesting) : Part → List Place
  | .program p => placesOfBody Γ p
  | .stmt s => s.places Γ
  | .expr e => e.places Γ
  | .method f => ⟨Γ, .method f⟩ :: placesInFunction Γ f

/-! ### Places of the children -/

theorem mem_placesOfExprs {Γ : Nesting} {es : List Expr} {P : Place} :
    P ∈ placesOfExprs Γ es ↔ ∃ e ∈ es, P ∈ e.places Γ := by
  induction es with
  | nil => simp [placesOfExprs]
  | cons e es ih => simp [placesOfExprs, ih]

theorem Expr.mem_places? {Γ : Nesting} {e : Option Expr} {P : Place} :
    P ∈ Expr.places? Γ e ↔ ∃ e' ∈ e.toList, P ∈ e'.places Γ := List.mem_flatMap

theorem mem_placesOfBody {Γ : Nesting} {ss : List Stmt} {P : Place} :
    P ∈ placesOfBody Γ ss ↔ ∃ (i : Nat) (s : Stmt), ss[i]? = some s ∧
      P ∈ s.places (Γ.afterAll (ss.take i)) := by
  induction ss generalizing Γ with
  | nil => simp [placesOfBody]
  | cons s ss ih =>
    rw [placesOfBody, List.mem_append, ih]
    constructor
    · rintro (h | ⟨i, s', hs, h⟩)
      · exact ⟨0, s, rfl, h⟩
      · exact ⟨i + 1, s', hs, h⟩
    · rintro ⟨i, s', hs, h⟩
      cases i with
      | zero =>
        cases hs
        exact .inl h
      | succ i => exact .inr ⟨i, s', hs, h⟩

theorem mem_placesOfMethods {Γ : Nesting} {fs : List FunctionDecl} {P : Place} :
    P ∈ placesOfMethods Γ fs ↔ ∃ (i : Nat) (f : FunctionDecl), fs[i]? = some f ∧
      P ∈ Part.places Γ (.method f) := by
  induction fs with
  | nil => simp [placesOfMethods]
  | cons f fs ih =>
    rw [placesOfMethods, List.mem_cons, List.mem_append, ih, ← or_assoc, ← List.mem_cons]
    constructor
    · rintro (h | ⟨i, f', hf, h⟩)
      · exact ⟨0, f, rfl, h⟩
      · exact ⟨i + 1, f', hf, h⟩
    · rintro ⟨i, f', hf, h⟩
      cases i with
      | zero =>
        cases hf
        exact .inl h
      | succ i => exact .inr ⟨i, f', hf, h⟩

namespace Part

variable {Γ : Nesting} {P : Place}

/-- The children of a part, each with its nesting. -/
def AtChild (Γ : Nesting) (t : Part) (P : Place) : Prop :=
  ∃ (i : Nat) (c : Part), t.children[i]? = some c ∧ P ∈ c.places (Γ.enter t i)

theorem atChild_stmts {t : Part} {ss : List Stmt} {Δ : Nesting} (hc : t.children = ss.map stmt)
    (he : ∀ i, Γ.enter t i = Δ.afterAll (ss.take i)) :
    t.AtChild Γ P ↔ P ∈ placesOfBody Δ ss := by
  rw [mem_placesOfBody]
  constructor
  · rintro ⟨i, c, h, hP⟩
    rw [hc, List.getElem?_map, Option.map_eq_some_iff] at h
    obtain ⟨s, hs, rfl⟩ := h
    exact ⟨i, s, hs, he i ▸ hP⟩
  · rintro ⟨i, s, hs, hP⟩
    exact ⟨i, .stmt s, by rw [hc, List.getElem?_map, hs]; rfl, (he i).symm ▸ hP⟩

theorem atChild_exprs {t : Part} (es : List Expr) {Δ : Nesting} (hc : t.children = es.map expr)
    (he : ∀ i, Γ.enter t i = Δ) : t.AtChild Γ P ↔ ∃ e ∈ es, P ∈ e.places Δ := by
  constructor
  · rintro ⟨i, c, h, hP⟩
    rw [hc, List.getElem?_map, Option.map_eq_some_iff] at h
    obtain ⟨e, hs, rfl⟩ := h
    exact ⟨e, List.mem_of_getElem? hs, he i ▸ hP⟩
  · rintro ⟨e, hm, hP⟩
    obtain ⟨i, hs⟩ := List.getElem?_of_mem hm
    exact ⟨i, .expr e, by rw [hc, List.getElem?_map, hs]; rfl, (he i).symm ▸ hP⟩

theorem mem_places_expr {e : Expr} :
    P ∈ e.places Γ ↔ P = ⟨Γ, .expr e⟩ ∨ ∃ c ∈ e.children, P ∈ c.places Γ := by
  cases e with
  | assign id target equals value =>
    cases ht : target.asVariable? with
    | some ref => simp [Expr.places, Expr.children, ht, or_comm]
    | none =>
      rw [Expr.places_assign_of_none ht]
      simp [Expr.children, ht, or_left_comm]
  | call id callee paren arguments =>
    simp [Expr.places, Expr.children, mem_placesOfExprs]
  | set id object name value =>
    simp [Expr.places, Expr.children, or_comm]
  | _ => simp [Expr.places, Expr.children]

theorem atChild_pair {t a b : Part} (hc : t.children = [a, b]) :
    t.AtChild Γ P ↔ P ∈ a.places (Γ.enter t 0) ∨ P ∈ b.places (Γ.enter t 1) := by
  unfold AtChild
  rw [hc]
  constructor
  · rintro ⟨i, c, h, hP⟩
    match i, h with
    | 0, rfl => exact .inl hP
    | 1, rfl => exact .inr hP
  · rintro (hP | hP)
    · exact ⟨0, a, rfl, hP⟩
    · exact ⟨1, b, rfl, hP⟩

theorem atChild_methods {id : NodeId} {name : Token} {superclass : Option VarRef}
    {methods : List FunctionDecl} :
    (stmt (.classDecl id name superclass methods)).AtChild Γ P ↔
      P ∈ Expr.places? (Γ.declareReady name.lexeme) (superclass.map .var) ∨
        P ∈ placesOfMethods (Γ.inMethods id name superclass methods) methods := by
  rw [mem_placesOfMethods, Expr.mem_places?]
  cases superclass with
  | none =>
    constructor
    · rintro ⟨i, c, h, hP⟩
      obtain ⟨f, hf, rfl⟩ := Option.map_eq_some_iff.1 ((List.getElem?_map ..).symm.trans h)
      exact .inr ⟨i, f, hf, hP⟩
    · rintro (⟨e, he, -⟩ | ⟨i, f, hf, hP⟩)
      · cases he
      · exact ⟨i, .method f, (List.getElem?_map ..).trans (by rw [hf]; rfl), hP⟩
  | some ref =>
    constructor
    · rintro ⟨i, c, h, hP⟩
      cases i with
      | zero =>
        cases h
        exact .inl ⟨_, List.mem_singleton.2 rfl, hP⟩
      | succ i =>
        obtain ⟨f, hf, rfl⟩ := Option.map_eq_some_iff.1 ((List.getElem?_map ..).symm.trans h)
        exact .inr ⟨i, f, hf, hP⟩
    · rintro (⟨e, he, hP⟩ | ⟨i, f, hf, hP⟩)
      · cases List.mem_singleton.1 he
        exact ⟨0, _, rfl, hP⟩
      · exact ⟨i + 1, .method f, (List.getElem?_map ..).trans (by rw [hf]; rfl), hP⟩

theorem atChild_branch {id : NodeId} {condition : Expr} {thenBranch : Stmt}
    {elseBranch : Option Stmt} :
    (stmt (.branch id condition thenBranch elseBranch)).AtChild Γ P ↔
      P ∈ condition.places Γ ∨ P ∈ thenBranch.places Γ ∨
        ∃ s ∈ elseBranch, P ∈ s.places (Γ.after thenBranch) := by
  constructor
  · rintro ⟨i, c, h, hP⟩
    match i, h with
    | 0, rfl => exact .inl hP
    | 1, rfl => exact .inr (.inl hP)
    | i + 2, h =>
      obtain ⟨s, hs, rfl⟩ := Option.map_eq_some_iff.1 ((List.getElem?_map ..).symm.trans h)
      refine .inr (.inr ⟨s, Option.mem_toList.1 (List.mem_of_getElem? hs), ?_⟩)
      rwa [Nesting.enter, if_neg (by omega)] at hP
  · rintro (hP | hP | ⟨s, hs, hP⟩)
    · exact ⟨0, _, rfl, hP⟩
    · exact ⟨1, _, rfl, hP⟩
    · cases hs
      exact ⟨2, _, rfl, hP⟩

theorem mem_places_stmt {s : Stmt} :
    P ∈ s.places Γ ↔ P = ⟨Γ, .stmt s⟩ ∨ (stmt s).AtChild Γ P := by
  cases s with
  | block id body =>
    rw [atChild_stmts rfl fun _ => rfl]
    exact List.mem_cons
  | expression id e =>
    rw [atChild_exprs [e] rfl fun _ => rfl]
    simp [Stmt.places]
  | print id e =>
    rw [atChild_exprs [e] rfl fun _ => rfl]
    simp [Stmt.places]
  | varDecl id name initializer =>
    rw [atChild_exprs _ rfl fun _ => rfl, ← Expr.mem_places?]
    exact List.mem_cons
  | branch id condition thenBranch elseBranch =>
    rw [atChild_branch]
    cases elseBranch <;> simp [Stmt.places]
  | loop id condition body =>
    rw [atChild_pair rfl]
    simp [Stmt.places, Part.places, Nesting.enter]
  | function f =>
    rw [atChild_stmts rfl fun _ => rfl, ← placesInFunction_eq]
    exact List.mem_cons
  | ret id keyword value =>
    rw [atChild_exprs _ rfl fun _ => rfl, ← Expr.mem_places?]
    exact List.mem_cons
  | classDecl id name superclass methods =>
    rw [atChild_methods]
    simp [Stmt.places]

/-- The places of a part are its own and those of its children; a program has none of its own. -/
theorem mem_places_iff {t : Part} :
    P ∈ t.places Γ ↔ (P = ⟨Γ, t⟩ ∧ t.id?.isSome) ∨ t.AtChild Γ P := by
  cases t with
  | program p =>
    rw [atChild_stmts rfl fun _ => rfl]
    simp [Part.places, id?]
  | stmt s => simp [Part.places, mem_places_stmt, id?]
  | expr e =>
    rw [atChild_exprs _ rfl fun _ => rfl]
    refine mem_places_expr.trans ?_
    simp [id?]
  | method f =>
    rw [atChild_stmts rfl fun _ => rfl, ← placesInFunction_eq]
    simp [Part.places, id?]

/-! ### Places of an address -/

theorem place?_cons (t : Part) (i : Nat) (a : Address) :
    t.place? Γ (i :: a) = (t.children[i]?).bind fun c => c.place? (Γ.enter t i) a := rfl

theorem place?_append {t : Part} {a : Address} (b : Address) {P : Place}
    (h : t.place? Γ a = some P) : t.place? Γ (a ++ b) = P.part.place? P.nesting b := by
  induction a generalizing t Γ with
  | nil =>
    cases h
    rfl
  | cons i a ih =>
    obtain ⟨c, hc, h⟩ := Option.bind_eq_some_iff.1 h
    rw [List.cons_append, place?_cons, hc]
    exact ih h

/-- A place has the part of its address. -/
theorem map_part_place? (t : Part) (a : Address) :
    (t.place? Γ a).map (·.part) = t.at? a := by
  induction a generalizing t Γ with
  | nil => rfl
  | cons i a ih =>
    rw [place?_cons, at?_cons]
    cases t.children[i]? with
    | none => rfl
    | some c => exact ih c

theorem exists_place?_of_mem_places (t : Part) : ∀ {Γ : Nesting} {P : Place}, P ∈ t.places Γ →
    ∃ a, t.place? Γ a = some P := by
  induction t using children_induction with
  | step t ih =>
    intro Γ P h
    rcases mem_places_iff.1 h with ⟨rfl, -⟩ | ⟨i, c, hc, h⟩
    · exact ⟨[], rfl⟩
    · obtain ⟨a, ha⟩ := ih i c hc h
      exact ⟨i :: a, by rw [place?_cons, hc]; exact ha⟩

theorem mem_places_of_place? {t : Part} {a : Address} (h : t.place? Γ a = some P)
    (hP : P.part.id?.isSome) : P ∈ t.places Γ := by
  induction a generalizing t Γ with
  | nil =>
    cases h
    exact mem_places_iff.2 (.inl ⟨rfl, hP⟩)
  | cons i a ih =>
    obtain ⟨c, hc, h⟩ := Option.bind_eq_some_iff.1 h
    exact mem_places_iff.2 (.inr ⟨i, c, hc, ih h⟩)

theorem id?_isSome_of_mem_places (t : Part) : ∀ {Γ : Nesting} {P : Place}, P ∈ t.places Γ →
    P.part.id?.isSome := by
  induction t using children_induction with
  | step t ih =>
    intro Γ P h
    rcases mem_places_iff.1 h with ⟨rfl, hid⟩ | ⟨i, c, hc, h⟩
    · exact hid
    · exact ih i c hc h

end Part

namespace Program

theorem mem_places_iff {p : Program} {P : Place} :
    P ∈ p.places ↔ P.part.id?.isSome ∧ ∃ a, p.place? a = some P :=
  ⟨fun h => ⟨Part.id?_isSome_of_mem_places (.program p) h,
      Part.exists_place?_of_mem_places (.program p) h⟩,
    fun ⟨hP, _, ha⟩ => Part.mem_places_of_place? (t := .program p) ha hP⟩

theorem part?_of_place? {p : Program} {a : Address} {P : Place} (h : p.place? a = some P) :
    p.part? a = some P.part := by
  rw [part?, ← Part.map_part_place? (Γ := [])]
  exact congrArg (Option.map (·.part)) h

theorem exists_place? {p : Program} {a : Address} {t : Part} (h : p.part? a = some t) :
    ∃ Γ, p.place? a = some ⟨Γ, t⟩ := by
  rw [part?, ← Part.map_part_place? (Γ := []), Option.map_eq_some_iff] at h
  obtain ⟨⟨Γ, t⟩, hP, rfl⟩ := h
  exact ⟨Γ, hP⟩

theorem place?_concat {p : Program} {a : Address} {P : Place} (h : p.place? a = some P) (i : Nat) :
    p.place? (a ++ [i]) = (P.part.children[i]?).map fun c => ⟨P.nesting.enter P.part i, c⟩ := by
  rw [place?, Part.place?_append [i] h, Part.place?_cons]
  cases P.part.children[i]? <;> rfl

end Program

/-! ### The table at a node -/

/-- Recording a node touches the entry of that node alone. -/
theorem Place.getElem?_record (table : Resolution) (P : Place) (id : NodeId) :
    (record table P)[id]? =
      if P.part.id? = some id ∧ P.entry?.isSome then P.entry? else table[id]? := by
  unfold record
  cases hid : P.part.id? with
  | none => simp
  | some i =>
    cases he : P.entry? with
    | none => simp
    | some d =>
      simp only [Std.ExtTreeMap.getElem?_insert]
      by_cases h : i = id <;> simp [h]

/-- An entry comes from one of the nodes, unless it was there before. -/
theorem exists_of_record {ps : List Place} {table : Resolution} {id : NodeId} {d : Nat}
    (h : (ps.foldl Place.record table)[id]? = some d) :
    (∃ P ∈ ps, P.part.id? = some id ∧ P.entry? = some d) ∨ table[id]? = some d := by
  induction ps generalizing table with
  | nil => exact .inr h
  | cons P ps ih =>
    rcases ih h with ⟨Q, hQ, hd⟩ | h
    · exact .inl ⟨Q, List.mem_cons_of_mem _ hQ, hd⟩
    · rw [Place.getElem?_record] at h
      split at h
      · rename_i hc
        exact .inl ⟨P, List.mem_cons_self, hc.1, h⟩
      · exact .inr h

theorem isSome_of_record {ps : List Place} {table : Resolution} {id : NodeId}
    (h : (∃ P ∈ ps, P.part.id? = some id ∧ P.entry?.isSome) ∨ table[id]?.isSome) :
    (ps.foldl Place.record table)[id]?.isSome := by
  induction ps generalizing table with
  | nil => simpa using h
  | cons P ps ih =>
    refine ih ?_
    rw [Place.getElem?_record]
    split
    · rename_i hc
      exact .inr hc.2
    · rename_i hc
      rcases h with ⟨Q, hQ, h⟩ | h
      · rcases List.mem_cons.1 hQ with rfl | hQ
        · exact absurd h hc
        · exact .inl ⟨Q, hQ, h⟩
      · exact .inr h

namespace Program

variable {p : Program}

/-- Every entry is that of a node of the program. -/
theorem exists_place_of_entry {id : NodeId} {d : Nat} (h : p.resolve.table[id]? = some d) :
    ∃ a P, p.place? a = some P ∧ P.part.id? = some id ∧ P.entry? = some d := by
  rw [resolve_table] at h
  rcases exists_of_record h with ⟨P, hP, hid, hd⟩ | h
  · obtain ⟨a, ha⟩ := (mem_places_iff.1 hP).2
    exact ⟨a, P, ha, hid, hd⟩
  · simp at h

/-- Two places of one identity are the same place. -/
theorem place_unique (hp : DistinctNodes [p]) {a b : Address} {P Q : Place} {id : NodeId}
    (ha : p.place? a = some P) (hb : p.place? b = some Q) (hP : P.part.id? = some id)
    (hQ : Q.part.id? = some id) : P = Q := by
  obtain ⟨-, rfl, -⟩ := hp.part_unique List.mem_cons_self List.mem_cons_self
    (part?_of_place? ha) (part?_of_place? hb) hP hQ
  exact Option.some.inj (ha.symm.trans hb)

/-- The entry of a node is what the node contributes at its nesting. -/
theorem entry_eq (hp : DistinctNodes [p]) {a : Address} {P : Place} {id : NodeId}
    (ha : p.place? a = some P) (hid : P.part.id? = some id) :
    p.resolve.table[id]? = P.entry? := by
  cases h : p.resolve.table[id]? with
  | some d =>
    obtain ⟨b, Q, hb, hQ, hd⟩ := exists_place_of_entry h
    rw [place_unique hp ha hb hid hQ, hd]
  | none =>
    cases he : P.entry? with
    | none => rfl
    | some d =>
      have hmem := mem_places_iff.2 ⟨by simp [hid], a, ha⟩
      have hs : (p.places.foldl Place.record ∅)[id]?.isSome :=
        isSome_of_record (.inl ⟨P, hmem, hid, by simp [he]⟩)
      rw [← resolve_table, h] at hs
      cases hs

end Program

end Lox

import Lox.Proofs.WellFormed
import Lox.Proofs.Scoping.Declarations

/-!
# Declarations that stand alone as branches

Branches and loop bodies open no region.  A declaration that stands there alone (`if (c) var a;`)
gives its name to the region around it, whether or not the branch is taken: the region has the name,
but a scope made for the region need not bind it (`Program.DeclaresBare`).
-/

namespace Lox

/-- A declaration of a name that belongs to a region stands alone as a branch or loop body. -/
def Program.DeclaresBare (p : Program) (r : Region) (x : String) : Prop :=
  ∃ (a : Address) (t : Part) (i : Nat) (c : Part), p.part? a = some t ∧ t.branches ∧
    t.children[i]? = some c ∧ c.declares? = some x ∧ (p.regions a).head? = some r

/-- In a well-scoped program no declaration stands alone as a branch. -/
theorem Program.WellScoped.not_declaresBare {p : Program} (h : p.WellScoped) (r : Region)
    (x : String) : ¬ p.DeclaresBare r x := by
  rintro ⟨a, t, i, c, ht, hb, hc, hx, -⟩
  have hbare : ∀ s : Stmt, s.isDeclaration = false → (Part.stmt s).declares? = none := by
    intro s hs
    cases s <;> first | rfl | cases hs
  have hw := h a t ht
  cases t with
  | stmt s =>
    cases s with
    | branch id condition thenBranch elseBranch =>
      match i with
      | 0 =>
        cases hc
        cases hx
      | 1 =>
        cases hc
        rw [hbare _ hw.1] at hx
        cases hx
      | i + 2 =>
        obtain ⟨s, hs, rfl⟩ : ∃ s ∈ elseBranch, c = .stmt s := by
          cases elseBranch with
          | none => cases hc
          | some s =>
            have hmem : c ∈ [Part.stmt s] := List.mem_of_getElem? (i := i) hc
            exact ⟨s, rfl, List.mem_singleton.1 hmem⟩
        rw [hbare s (hw.2 s hs)] at hx
        cases hx
    | loop id condition body =>
      match i with
      | 0 =>
        cases hc
        cases hx
      | 1 =>
        cases hc
        rw [hbare _ hw] at hx
        cases hx
      | i + 2 => cases hc
    | _ => cases hb
  | _ => cases hb

/-- The keywords of classes are never declared. -/
theorem Program.WellNamed.not_declaresBare {p : Program} (h : p.WellNamed) (r : Region) {x : String}
    (hx : x = "this" ∨ x = "super") : ¬ p.DeclaresBare r x := by
  rintro ⟨a, t, i, c, ht, -, hc, hd, -⟩
  obtain ⟨hthis, hsuper⟩ := (h _ c (Part.at?_child ht hc)).declares?_ne hd
  rcases hx with rfl | rfl
  · exact hthis rfl
  · exact hsuper rfl

/-! ### What opens a region tells which region it is -/

/-- The node that opens a scope. -/
def Opener.id : Opener → NodeId
  | .block id => id
  | .function id => id
  | .this id .. => id
  | .super id => id

theorem Part.id?_of_mem_opens {t : Part} {i : Nat} {o : Opener} (h : o ∈ t.opens i) :
    t.id? = some o.id := by
  unfold opens at h
  split at h <;> simp at h
  case h_6 => rcases h with rfl | rfl <;> rfl
  all_goals subst h; rfl

/-- A region around a node is opened by a part of the program. -/
theorem Program.exists_opens_of_mem_regions {p : Program} {a : Address} {t : Part}
    (ha : p.part? a = some t) {r : Region} (hr : r ∈ p.regions a) :
    ∃ u i, p.part? r.address = some u ∧ r.opener ∈ u.opens i := by
  induction a using List.reverseRecOn generalizing t with
  | nil => simp [regions] at hr
  | append_singleton a i ih =>
    obtain ⟨u, hu, hc⟩ : ∃ u, p.part? a = some u ∧ u.children[i]? = some t := by
      rw [part?, Part.at?_concat, Option.bind_eq_some_iff] at ha
      exact ha
    rw [p.regions_concat hu hc] at hr
    rcases List.mem_append.1 hr with hr | hr
    · obtain ⟨o, ho, rfl⟩ := List.mem_map.1 hr
      exact ⟨u, i, hu, ho⟩
    · exact ih hu hr

/-- Two regions that are opened by the same node in the same way are one. -/
theorem DistinctNodes.region_unique {programs : List Program} (h : DistinctNodes programs)
    {p q : Program} (hp : p ∈ programs) (hq : q ∈ programs) {a b : Address} {s t : Part}
    {r r' : Region} (ha : p.part? a = some s) (hb : q.part? b = some t) (hr : r ∈ p.regions a)
    (hr' : r' ∈ q.regions b) (ho : r.opener = r'.opener) : p = q ∧ r = r' := by
  obtain ⟨u, i, hu, hopen⟩ := Program.exists_opens_of_mem_regions ha hr
  obtain ⟨v, j, hv, hopen'⟩ := Program.exists_opens_of_mem_regions hb hr'
  obtain ⟨hpq, haddress, -⟩ := h.part_unique hp hq hu hv (Part.id?_of_mem_opens hopen)
    (ho ▸ Part.id?_of_mem_opens hopen')
  cases r
  cases r'
  exact ⟨hpq, by simp_all⟩

end Lox

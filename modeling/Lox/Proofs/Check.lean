import Lox.Proofs.WellFormed

/-!
# Checking programs

A program of known depth has finitely many addresses (`Part.within`), so that a look at all its parts
decides whether it is well-formed, and a comparison of all its parts whether its nodes are told apart
by their identities.
-/

namespace Lox

/-- The parts down to a depth, with their addresses. -/
def Part.within : Nat → Part → List (Address × Part)
  | 0, t => [([], t)]
  | n + 1, t =>
    ([], t) :: t.children.zipIdx.flatMap fun (c, i) => (c.within n).map fun (a, u) => (i :: a, u)

/-- No part is deeper. -/
def Part.depthAtMost : Nat → Part → Bool
  | 0, t => t.children.isEmpty
  | n + 1, t => t.children.all (·.depthAtMost n)

/-- No two of the listed parts share an identity, and no part repeats one. -/
def distinctParts (parts : List (Address × Part)) : Bool :=
  parts.all fun (a, s) => decide s.ids.Nodup &&
    parts.all fun (b, t) => decide (a = b) || s.ids.all (· ∉ t.ids)

/-- No part of one list shares an identity with one of the other. -/
def disjointParts (parts others : List (Address × Part)) : Bool :=
  parts.all fun (_, s) => others.all fun (_, t) => s.ids.all (· ∉ t.ids)

namespace Part

theorem mem_within {n : Nat} {t u : Part} {a : Address} (hd : t.depthAtMost n)
    (h : t.at? a = some u) : (a, u) ∈ t.within n := by
  induction n generalizing t a with
  | zero =>
    cases a with
    | nil =>
      cases h
      exact List.mem_cons_self
    | cons i a =>
      rw [depthAtMost, List.isEmpty_iff] at hd
      rw [at?_cons, hd] at h
      cases h
  | succ n ih =>
    cases a with
    | nil =>
      cases h
      exact List.mem_cons_self
    | cons i a =>
      obtain ⟨c, hc, h⟩ := Option.bind_eq_some_iff.1 h
      have hcd : c.depthAtMost n := List.all_eq_true.1 hd c (List.mem_of_getElem? hc)
      refine List.mem_cons_of_mem _ (List.mem_flatMap.2 ⟨(c, i), ?_, ?_⟩)
      · exact List.mk_mem_zipIdx_iff_getElem?.2 hc
      · exact List.mem_map.2 ⟨(a, u), ih hcd h, rfl⟩

/-- It is enough to look at the parts down to its depth. -/
theorem All.of_within {P : Part → Prop} {t : Part} (n : Nat) (hd : t.depthAtMost n)
    (h : ∀ at? ∈ t.within n, P at?.2) : t.All P :=
  fun a u ha => h (a, u) (mem_within hd ha)

end Part

/-! ### Well-formed programs -/

instance (name : Token) : Decidable name.isPlainName :=
  inferInstanceAs (Decidable (name.lexeme ≠ "this" ∧ name.lexeme ≠ "super"))

instance (f : FunctionDecl) : Decidable f.PlainNames :=
  inferInstanceAs (Decidable (∀ name ∈ f.params, name.isPlainName))

instance Expr.decidableWellScoped : (e : Expr) → Decidable (Part.expr e).WellScoped
  | .var ref => inferInstanceAs (Decidable ref.name.isPlainName)
  | .assign _ target _ _ =>
    inferInstanceAs (Decidable (∀ ref ∈ target.asVariable?, ref.name.isPlainName))
  | .this _ keyword => inferInstanceAs (Decidable (keyword.lexeme = "this"))
  | .super _ keyword _ => inferInstanceAs (Decidable (keyword.lexeme = "super"))
  | .literal .. | .binary .. | .unary .. | .logical .. | .grouping .. | .call .. | .get ..
  | .set .. => isTrue trivial

instance Stmt.decidableWellScoped : (s : Stmt) → Decidable (Part.stmt s).WellScoped
  | .branch _ _ thenBranch elseBranch =>
    inferInstanceAs (Decidable (thenBranch.isDeclaration = false ∧
      ∀ s ∈ elseBranch, s.isDeclaration = false))
  | .loop _ _ body => inferInstanceAs (Decidable (body.isDeclaration = false))
  | .varDecl _ name _ => inferInstanceAs (Decidable name.isPlainName)
  | .function f => inferInstanceAs (Decidable (f.name.isPlainName ∧ f.PlainNames))
  | .classDecl _ name _ _ => inferInstanceAs (Decidable name.isPlainName)
  | .block .. | .expression .. | .print .. | .ret .. => isTrue trivial

instance Part.decidableWellScoped : (t : Part) → Decidable t.WellScoped
  | .program _ => isTrue trivial
  | .stmt s => s.decidableWellScoped
  | .expr e => e.decidableWellScoped
  | .method f => inferInstanceAs (Decidable f.PlainNames)

instance (t : Part) : Decidable t.WellNamed :=
  match h : t.branches with
  | true => isTrue (by unfold Part.branches at h; split at h <;> trivial)
  | false => decidable_of_iff t.WellScoped (Part.wellNamed_iff h).symm

instance Expr.decidableEvaluable : (e : Expr) → Decidable (Part.expr e).Evaluable
  | .literal _ value => inferInstanceAs (Decidable (value.inRange = true))
  | .binary _ _ operator _ => inferInstanceAs (Decidable (operator.kind.isBinary = true))
  | .unary _ operator _ => inferInstanceAs (Decidable (operator.kind.isUnary = true))
  | .var .. | .assign .. | .this .. | .super .. | .logical .. | .grouping .. | .call .. | .get ..
  | .set .. => isTrue trivial

instance Part.decidableEvaluable : (t : Part) → Decidable t.Evaluable
  | .expr e => e.decidableEvaluable
  | .program _ | .stmt _ | .method _ => isTrue trivial

instance (t : Part) : Decidable t.WellFormed :=
  decidable_of_iff (t.WellScoped ∧ t.Evaluable) ⟨fun h => ⟨h.1, h.2⟩, fun h => ⟨h.wellScoped, h.evaluable⟩⟩

/-- A program is well-formed if the parts down to its depth are. -/
theorem Program.WellFormed.of_within {p : Program} (n : Nat) (hd : (Part.program p).depthAtMost n)
    (h : ∀ at? ∈ (Part.program p).within n, at?.2.WellFormed) : p.WellFormed :=
  Part.All.of_within n hd h

/-- A program is well-named if the parts down to its depth are. -/
theorem Program.WellNamed.of_within {p : Program} (n : Nat) (hd : (Part.program p).depthAtMost n)
    (h : ∀ at? ∈ (Part.program p).within n, at?.2.WellNamed) : p.WellNamed :=
  Part.All.of_within n hd h

/-! ### Distinct nodes -/

/-- The nodes of a program are distinct if the parts down to its depth are. -/
theorem DistinctNodes.of_within {p : Program} (n : Nat) (hd : (Part.program p).depthAtMost n)
    (h : distinctParts ((Part.program p).within n)) : DistinctNodes [p] := by
  have hall := fun a t (ht : p.part? a = some t) =>
    List.all_eq_true.1 h (a, t) (Part.mem_within hd ht)
  simp only [Bool.and_eq_true, decide_eq_true_iff, List.all_eq_true, Bool.or_eq_true] at hall
  refine ⟨?_, ?_⟩
  · intro q hq q' hq' a b s t hs ht id his hit
    obtain rfl := List.mem_singleton.1 hq
    obtain rfl := List.mem_singleton.1 hq'
    refine ⟨rfl, ?_⟩
    rcases (hall a s hs).2 (b, t) (Part.mem_within hd ht) with hab | hdisj
    · exact hab
    · exact absurd hit (hdisj id his)
  · intro q hq a t ht
    obtain rfl := List.mem_singleton.1 hq
    exact (hall a t ht).1

/-- The nodes of two programs are distinct if they are in each, and the programs share none. -/
theorem DistinctNodes.pair {p q : Program} (hp : DistinctNodes [p]) (hq : DistinctNodes [q]) (n : Nat)
    (hdp : (Part.program p).depthAtMost n) (hdq : (Part.program q).depthAtMost n)
    (h : disjointParts ((Part.program p).within n) ((Part.program q).within n)) :
    DistinctNodes [p, q] := by
  have hno : ∀ a b s t, p.part? a = some s → q.part? b = some t → ∀ id ∈ s.ids, id ∉ t.ids := by
    intro a b s t hs ht id his
    have hall := List.all_eq_true.1 h (a, s) (Part.mem_within hdp hs)
    have hst := List.all_eq_true.1 hall (b, t) (Part.mem_within hdq ht)
    exact of_decide_eq_true (List.all_eq_true.1 hst id his)
  have hmem : ∀ r ∈ [p, q], r = p ∨ r = q := by simp
  refine ⟨?_, ?_⟩
  · intro p' hp' q' hq' a b s t hs ht id his hit
    rcases hmem p' hp' with rfl | rfl <;> rcases hmem q' hq' with rfl | rfl
    · exact hp.unique _ (by simp) _ (by simp) a b s t hs ht id his hit
    · exact absurd hit (hno a b s t hs ht id his)
    · exact absurd his (hno b a t s ht hs id hit)
    · exact hq.unique _ (by simp) _ (by simp) a b s t hs ht id his hit
  · intro p' hp' a t ht
    rcases hmem p' hp' with rfl | rfl
    · exact hp.nodup _ (by simp) a t ht
    · exact hq.nodup _ (by simp) a t ht

/-- One more program: its nodes are distinct from those of each of the others. -/
theorem DistinctNodes.cons {p : Program} {qs : List Program} (hp : DistinctNodes [p])
    (hqs : DistinctNodes qs) (h : ∀ q ∈ qs, DistinctNodes [p, q]) : DistinctNodes (p :: qs) := by
  refine ⟨?_, ?_⟩
  · intro q hq r hr a b s t hs ht id his hit
    rcases List.mem_cons.1 hq with rfl | hq' <;> rcases List.mem_cons.1 hr with rfl | hr'
    · exact hp.unique _ (by simp) _ (by simp) a b s t hs ht id his hit
    · exact (h r hr').unique _ (by simp) _ (by simp) a b s t hs ht id his hit
    · exact (h q hq').unique _ (by simp) _ (by simp) a b s t hs ht id his hit
    · exact hqs.unique q hq' r hr' a b s t hs ht id his hit
  · intro q hq a t ht
    rcases List.mem_cons.1 hq with rfl | hq
    · exact hp.nodup _ (by simp) a t ht
    · exact hqs.nodup q hq a t ht

end Lox

import Mathlib.Data.List.Induction
import Lox.Proofs.Part

/-!
# Lexical scope, by position

What a name means at a place, said of places alone: no walk, no table and no stack.

* A *region* is the stretch of a program one local scope extends over: the statements of a block,
  the parameters and the body of a function or method, and, around the methods of a class, a region
  that has only `this` and outside of it, if there is a superclass, one that has only `super`.
* A declaration belongs to the innermost region around it.  Branches and loop bodies open no
  region; a declaration outside of all regions is global and belongs to none.
* A use finds the first region, counted outwards from 0, that has its name: as a parameter, as
  `this` or `super`, or by a declaration that comes before the use.  What stands inside of a
  declaration comes after it.
-/

namespace Lox

/-- What opens a local scope; the scopes of a class tell its methods, and whether a scope with
`super` lies around. -/
inductive Opener
  | block (id : NodeId)
  | function (id : NodeId)
  | this (id : NodeId) (methods : List NodeId) (subclass : Bool)
  | super (id : NodeId)
  deriving DecidableEq

def Opener.isThis : Opener → Bool
  | .this .. => true
  | _ => false

/-- The scopes a part opens around its child of a given number, innermost first. -/
def Part.opens : Part → Nat → List Opener
  | stmt (.block id _), _ => [.block id]
  | stmt (.function f), _ => [.function f.id]
  | method f, _ => [.function f.id]
  | stmt (.classDecl id _ none methods), _ => [.this id (methods.map (·.id)) false]
  | stmt (.classDecl _ _ (some _) _), 0 => []
  | stmt (.classDecl id _ (some _) methods), _ + 1 =>
    [.this id (methods.map (·.id)) true, .super id]
  | _, _ => []

/-- A local scope as a stretch of a program: the address of the part that opens it, and how. -/
structure Region where
  address : Address
  opener : Opener
  deriving DecidableEq

/-- The regions around an address below a part that stands at `here`, innermost first. -/
def Part.regions (here : Address) : Part → Address → List Region
  | _, [] => []
  | t, i :: a =>
    (match t.children[i]? with
      | some c => c.regions (here ++ [i]) a
      | none => []) ++ (t.opens i).map (⟨here, ·⟩)

namespace Program

/-- The regions around an address, innermost first. -/
def regions (p : Program) (a : Address) : List Region := (Part.program p).regions [] a

/-- A declaration of a name belongs to a region and comes before an address. -/
def DeclaresBefore (p : Program) (r : Region) (x : String) (a : Address) : Prop :=
  ∃ b t, p.part? b = some t ∧ t.declares? = some x ∧ (p.regions b).head? = some r ∧ b < a

/-- Whether a region has a name, as seen from an address inside of it. -/
def Has (p : Program) (r : Region) (x : String) (a : Address) : Prop :=
  match r.opener with
  | .this .. => x = "this"
  | .super _ => x = "super"
  | .block _ => p.DeclaresBefore r x a
  | .function _ => (∃ t, p.part? r.address = some t ∧ x ∈ t.params) ∨ p.DeclaresBefore r x a

/-- Region number `d`, counted outwards from an address, is the first that has the name. -/
def FirstWith (p : Program) (a : Address) (x : String) (d : Nat) : Prop :=
  (∃ r, (p.regions a)[d]? = some r ∧ p.Has r x a) ∧
    ∀ j < d, ∀ r, (p.regions a)[j]? = some r → ¬ p.Has r x a

/-- Whether an address lies inside of the methods of a class. -/
def InClass (p : Program) (a : Address) : Prop := ∃ r ∈ p.regions a, r.opener.isThis

/-- The node at an address looks up a name.  A `this` outside of all classes looks up nothing. -/
def LooksUp (p : Program) (a : Address) (x : String) : Prop :=
  ∃ t, p.part? a = some t ∧ t.looksUp? = some x ∧
    ∀ id keyword, t = .expr (.this id keyword) → p.InClass a

end Program

/-! ### Regions of longer addresses -/

namespace Part

@[simp] theorem regions_nil (here : Address) (t : Part) : t.regions here [] = [] := rfl

theorem regions_cons {t c : Part} (here : Address) {i : Nat} (a : Address)
    (h : t.children[i]? = some c) :
    t.regions here (i :: a) = c.regions (here ++ [i]) a ++ (t.opens i).map (⟨here, ·⟩) := by
  rw [regions, h]

theorem regions_append {t u : Part} {a : Address} (here b : Address) (h : t.at? a = some u) :
    t.regions here (a ++ b) = u.regions (here ++ a) b ++ t.regions here a := by
  induction a generalizing t here with
  | nil =>
    cases h
    simp
  | cons i a ih =>
    rw [at?_cons, Option.bind_eq_some_iff] at h
    obtain ⟨c, hc, hu⟩ := h
    rw [List.cons_append, regions_cons here _ hc, regions_cons here _ hc, ih _ hu,
      List.append_assoc, List.append_assoc, List.singleton_append]

/-- A region around an address below `here` is opened at `here` or below. -/
theorem here_prefix_of_mem_regions {t : Part} {here a : Address} {r : Region}
    (h : r ∈ t.regions here a) : here <+: r.address := by
  induction a generalizing t here with
  | nil => simp at h
  | cons i a ih =>
    rw [regions] at h
    rcases List.mem_append.1 h with h | h
    · cases hc : t.children[i]? with
      | none => simp [hc] at h
      | some c =>
        rw [hc] at h
        exact (List.prefix_append _ _).trans (ih h)
    · obtain ⟨o, -, rfl⟩ := List.mem_map.1 h
      exact List.prefix_refl _

end Part

theorem Program.regions_append {p : Program} {t : Part} {a : Address} (b : Address)
    (h : p.part? a = some t) : p.regions (a ++ b) = t.regions a b ++ p.regions a := by
  simpa [Program.regions] using Part.regions_append [] b h

/-- The regions around a child are those its parent opens and those around the parent. -/
theorem Program.regions_concat {p : Program} {t c : Part} {a : Address} {i : Nat}
    (h : p.part? a = some t) (hc : t.children[i]? = some c) :
    p.regions (a ++ [i]) = (t.opens i).map (⟨a, ·⟩) ++ p.regions a := by
  rw [p.regions_append [i] h, Part.regions_cons a [] hc]
  rfl

/-- A region around an address is opened strictly above it. -/
theorem Program.length_lt_of_mem_regions {p : Program} {a : Address} {t : Part}
    (h : p.part? a = some t) {r : Region} (hr : r ∈ p.regions a) :
    r.address.length < a.length := by
  induction a using List.reverseRecOn generalizing t with
  | nil => simp [regions] at hr
  | append_singleton a i ih =>
    obtain ⟨u, hu, hc⟩ : ∃ u, p.part? a = some u ∧ u.children[i]? = some t := by
      rw [part?, Part.at?_concat, Option.bind_eq_some_iff] at h
      exact h
    rw [p.regions_concat hu hc] at hr
    rcases List.mem_append.1 hr with hr | hr
    · obtain ⟨o, -, rfl⟩ := List.mem_map.1 hr
      simp
    · have := ih hu hr
      simp only [List.length_append, List.length_singleton]
      omega

end Lox

import Lox.Syntax

/-!
# Parts of a program

The parts of a program are its nodes, taken with their place: the program itself, its statements
and expressions, and the methods of its classes.  A variable that is assigned is no part of its
own: the assignment names it, and nothing ever visits it.

A place is an *address*, the numbers of the children that lead to it.  Addresses are compared as
lists: a part comes before the parts inside it, and these come before its later siblings.
-/

namespace Lox

theorem getElem?_map_some {α β : Type} {f : α → β} {as : List α} {i : Nat} {a : α}
    (h : as[i]? = some a) : (as.map f)[i]? = some (f a) := by
  rw [List.getElem?_map, h]
  rfl

inductive Part
  | program (p : Program)
  | stmt (s : Stmt)
  | expr (e : Expr)
  | method (f : FunctionDecl)

/-- The numbers of the children that lead to a part. -/
abbrev Address := List Nat

/-- The variable an expression is, if it is one. -/
def Expr.asVariable? : Expr → Option VarRef
  | .var ref => some ref
  | _ => none

theorem Expr.eq_var_of_asVariable? {e : Expr} {ref : VarRef} (h : e.asVariable? = some ref) :
    e = .var ref := by
  cases e with
  | var r =>
    cases h
    rfl
  | _ => cases h

def Expr.id : Expr → NodeId
  | .literal id _ => id
  | .var ref => ref.id
  | .assign id .. => id
  | .binary id .. => id
  | .logical id .. => id
  | .unary id .. => id
  | .grouping id _ => id
  | .call id .. => id
  | .get id .. => id
  | .set id .. => id
  | .this id _ => id
  | .super id .. => id

def Stmt.id : Stmt → NodeId
  | .block id _ => id
  | .expression id _ => id
  | .print id _ => id
  | .varDecl id .. => id
  | .branch id .. => id
  | .loop id .. => id
  | .function f => f.id
  | .ret id .. => id
  | .classDecl id .. => id

/-- The parts of an expression, in the order in which they stand in the text. -/
def Expr.children : Expr → List Expr
  | .literal .. => []
  | .var _ => []
  | .assign _ target _ value =>
    match target.asVariable? with
    | some _ => [value]
    | none => [value, target]
  | .binary _ left _ right => [left, right]
  | .logical _ left _ right => [left, right]
  | .unary _ _ operand => [operand]
  | .grouping _ inner => [inner]
  | .call _ callee _ arguments => callee :: arguments
  | .get _ object _ => [object]
  | .set _ object _ value => [object, value]
  | .this .. => []
  | .super .. => []

namespace Part

/-- The identity of a node; the program as a whole has none. -/
def id? : Part → Option NodeId
  | program _ => none
  | stmt s => some s.id
  | expr e => some e.id
  | method f => some f.id

/-- The identities a part brings along: its own, and that of the variable it assigns. -/
def ids : Part → List NodeId
  | expr (.assign id target _ _) => id :: (target.asVariable?.map (·.id)).toList
  | t => t.id?.toList

def children : Part → List Part
  | program p => p.map stmt
  | stmt (.block _ body) => body.map stmt
  | stmt (.expression _ e) => [expr e]
  | stmt (.print _ e) => [expr e]
  | stmt (.varDecl _ _ initializer) => initializer.toList.map expr
  | stmt (.branch _ condition thenBranch elseBranch) =>
    expr condition :: stmt thenBranch :: elseBranch.toList.map stmt
  | stmt (.loop _ condition body) => [expr condition, stmt body]
  | stmt (.function f) => f.body.map stmt
  | stmt (.ret _ _ value) => value.toList.map expr
  | stmt (.classDecl _ _ superclass methods) =>
    superclass.toList.map (fun ref => expr (.var ref)) ++ methods.map method
  | expr e => e.children.map expr
  | method f => f.body.map stmt

/-- Every child has an identity. -/
theorem id?_isSome_of_child {t c : Part} {i : Nat} (h : t.children[i]? = some c) :
    c.id?.isSome := by
  cases c with
  | program p =>
    exfalso
    have hm := List.mem_of_getElem? h
    cases t with
    | stmt s => cases s <;> simp [children] at hm
    | _ => simp [children] at hm
  | _ => rfl

/-- The part at an address. -/
def at? : Part → Address → Option Part
  | t, [] => some t
  | t, i :: a => (t.children[i]?).bind (·.at? a)

theorem id?_mem_ids {t : Part} {id : NodeId} (h : t.id? = some id) : id ∈ t.ids := by
  unfold ids
  split
  · cases h
    exact List.mem_cons_self
  · simp [h]

@[simp] theorem at?_nil (t : Part) : t.at? [] = some t := rfl

theorem at?_cons (t : Part) (i : Nat) (a : Address) :
    t.at? (i :: a) = (t.children[i]?).bind (·.at? a) := rfl

theorem at?_append (t : Part) (a b : Address) :
    t.at? (a ++ b) = (t.at? a).bind (·.at? b) := by
  induction a generalizing t with
  | nil => rfl
  | cons i a ih =>
    rw [List.cons_append, at?_cons, at?_cons]
    cases t.children[i]? with
    | none => rfl
    | some c => exact ih c

theorem at?_concat (t : Part) (a : Address) (i : Nat) :
    t.at? (a ++ [i]) = (t.at? a).bind (·.children[i]?) := by
  rw [at?_append]
  cases t.at? a with
  | none => rfl
  | some u =>
    show (u.children[i]?).bind (·.at? []) = u.children[i]?
    cases u.children[i]? <;> rfl

/-- A part inside a part is one. -/
theorem at?_child {t u c : Part} {a : Address} {i : Nat} (h : t.at? a = some u)
    (hc : u.children[i]? = some c) : t.at? (a ++ [i]) = some c := by
  rw [at?_concat, h]
  exact hc

/-- Whether a part is a declaration standing among statements, and of which name. -/
def declares? : Part → Option String
  | stmt (.varDecl _ name _) => some name.lexeme
  | stmt (.function f) => some f.name.lexeme
  | stmt (.classDecl _ name _ _) => some name.lexeme
  | _ => none

/-- The names of the parameters of a function or method. -/
def params : Part → List String
  | stmt (.function f) => f.params.map (·.lexeme)
  | method f => f.params.map (·.lexeme)
  | _ => []

/-- The name a node looks up: that of a variable that is read or assigned, or the keyword of a
`this` or `super`. -/
def looksUp? : Part → Option String
  | expr (.var ref) => some ref.name.lexeme
  | expr (.assign _ target _ _) => target.asVariable?.map (·.name.lexeme)
  | expr (.this _ keyword) => some keyword.lexeme
  | expr (.super _ keyword _) => some keyword.lexeme
  | _ => none

end Part

/-! ### Parts of a kind -/

namespace Part

/-- A part and all parts inside of it are of a kind. -/
def All (P : Part → Prop) (t : Part) : Prop := ∀ a u, t.at? a = some u → P u

variable {P : Part → Prop} {t c : Part}

theorem All.self (h : t.All P) : P t := h [] t rfl

theorem All.of_mem (h : t.All P) (hc : c ∈ t.children) : c.All P := by
  obtain ⟨i, hi⟩ := List.getElem?_of_mem hc
  intro a u ha
  refine h (i :: a) u ?_
  rw [at?_cons, hi]
  exact ha

theorem All.child (h : t.All P) (i : Nat) (hc : t.children[i]? = some c) : c.All P :=
  h.of_mem (List.mem_of_getElem? hc)

theorem All.of_children (ht : P t) (h : ∀ c ∈ t.children, c.All P) : t.All P := by
  intro a u ha
  cases a with
  | nil =>
    cases ha
    exact ht
  | cons i a =>
    rw [at?_cons, Option.bind_eq_some_iff] at ha
    obtain ⟨c, hi, ha⟩ := ha
    exact h c (List.mem_of_getElem? hi) a u ha

/-- A function has the same parts as a declaration and as a method. -/
theorem All.method {f : FunctionDecl} (h : (stmt (.function f)).All P)
    (hP : P (stmt (.function f)) → P (.method f)) : (Part.method f).All P := by
  intro a u ha
  cases a with
  | nil =>
    cases ha
    exact hP h.self
  | cons i a => exact h (i :: a) u ha

end Part

/-! ### The nodes of a part -/

namespace Part

/-- A node belongs to a part: it is the part itself or inside of it. -/
def HasNode (t : Part) (id : NodeId) : Prop := ∃ a u, t.at? a = some u ∧ u.id? = some id

/-- The nodes of a part are among the given ones. -/
def NodesIn (K : NodeId → Prop) (t : Part) : Prop := ∀ id, t.HasNode id → K id

variable {K : NodeId → Prop} {t c : Part} {id : NodeId}

theorem HasNode.of_child {i : Nat} (hc : t.children[i]? = some c) (h : c.HasNode id) :
    t.HasNode id := by
  obtain ⟨a, u, ha, hu⟩ := h
  refine ⟨i :: a, u, ?_, hu⟩
  rw [at?_cons, hc]
  exact ha

theorem NodesIn.self (h : t.NodesIn K) (hid : t.id? = some id) : K id := h id ⟨[], t, rfl, hid⟩

theorem NodesIn.child (h : t.NodesIn K) (i : Nat) (hc : t.children[i]? = some c) : c.NodesIn K :=
  fun id hid => h id (hid.of_child hc)

theorem NodesIn.of_mem (h : t.NodesIn K) (hc : c ∈ t.children) : c.NodesIn K := by
  obtain ⟨i, hi⟩ := List.getElem?_of_mem hc
  exact h.child i hi

/-- A function has the same nodes as a declaration and as a method. -/
theorem NodesIn.method {f : FunctionDecl} (h : (stmt (.function f)).NodesIn K) :
    (Part.method f).NodesIn K := by
  rintro id ⟨a, u, ha, hu⟩
  cases a with
  | nil =>
    cases ha
    exact h.self hu
  | cons i a => exact h id ⟨i :: a, u, ha, hu⟩

end Part

/-! ### Induction over parts -/

theorem Expr.sizeOf_child_lt {e c : Expr} (h : c ∈ e.children) : sizeOf c < sizeOf e := by
  cases e with
  | assign id target equals value =>
    simp only [children] at h
    split at h <;> simp at h <;> grind
  | call id callee paren arguments =>
    simp only [children, List.mem_cons] at h
    simp only [call.sizeOf_spec]
    rcases h with rfl | h
    · omega
    · have := List.sizeOf_lt_of_mem h
      omega
  | _ => simp [children] at h <;> grind

theorem FunctionDecl.sizeOf_body_lt {f : FunctionDecl} {s : Stmt} (h : s ∈ f.body) :
    sizeOf s < sizeOf f := by
  have := List.sizeOf_lt_of_mem h
  cases f
  simp only [mk.sizeOf_spec] at *
  omega

namespace Part

theorem sizeOf_stmt_lt {ss : List Stmt} {c : Part} (h : c ∈ ss.map stmt) :
    sizeOf c ≤ sizeOf ss := by
  obtain ⟨s, hs, rfl⟩ := List.mem_map.1 h
  have := List.sizeOf_lt_of_mem hs
  simp only [stmt.sizeOf_spec]
  omega

theorem sizeOf_child_lt {t c : Part} (h : c ∈ t.children) : sizeOf c < sizeOf t := by
  cases t with
  | program p =>
    have := sizeOf_stmt_lt h
    simp only [program.sizeOf_spec]
    omega
  | expr e =>
    obtain ⟨e', he, rfl⟩ := List.mem_map.1 h
    simpa using Expr.sizeOf_child_lt he
  | method f =>
    obtain ⟨s, hs, rfl⟩ := List.mem_map.1 h
    simpa using FunctionDecl.sizeOf_body_lt hs
  | stmt s =>
    cases s with
    | block id body =>
      have := sizeOf_stmt_lt h
      simp only [stmt.sizeOf_spec, Stmt.block.sizeOf_spec]
      omega
    | function f =>
      obtain ⟨s, hs, rfl⟩ := List.mem_map.1 h
      have := FunctionDecl.sizeOf_body_lt hs
      simp only [stmt.sizeOf_spec, Stmt.function.sizeOf_spec]
      omega
    | classDecl id name superclass methods =>
      rcases List.mem_append.1 h with h | h
      · simp at h
        grind
      · obtain ⟨f, hf, rfl⟩ := List.mem_map.1 h
        have := List.sizeOf_lt_of_mem hf
        simp only [stmt.sizeOf_spec, method.sizeOf_spec, Stmt.classDecl.sizeOf_spec]
        omega
    | _ => simp [children] at h <;> grind

/-- What holds of a part if it holds of its children holds of every part. -/
theorem children_induction {motive : Part → Prop}
    (step : ∀ t : Part, (∀ (i : Nat) c, t.children[i]? = some c → motive c) → motive t)
    (t : Part) : motive t :=
  step t fun _ c _ => children_induction step c
termination_by t
decreasing_by exact sizeOf_child_lt (List.mem_of_getElem? ‹_›)

end Part

/-- The part of a program at an address. -/
def Program.part? (p : Program) (a : Address) : Option Part := (Part.program p).at? a

/-- The nodes of the programs are told apart by their identities: one identity belongs to one place
of one program.  A program may be listed more than once. -/
structure DistinctNodes (programs : List Program) : Prop where
  unique : ∀ p ∈ programs, ∀ q ∈ programs, ∀ a b s t, p.part? a = some s → q.part? b = some t →
    ∀ id ∈ s.ids, id ∈ t.ids → p = q ∧ a = b
  nodup : ∀ p ∈ programs, ∀ a t, p.part? a = some t → t.ids.Nodup

namespace DistinctNodes

theorem mono {programs more : List Program} (h : DistinctNodes more)
    (hsub : ∀ p ∈ programs, p ∈ more) : DistinctNodes programs where
  unique p hp q hq := h.unique p (hsub p hp) q (hsub q hq)
  nodup p hp := h.nodup p (hsub p hp)

/-- Two places of one identity are one place, with one part at it. -/
theorem part_unique {programs : List Program} (h : DistinctNodes programs) {p q : Program}
    (hp : p ∈ programs) (hq : q ∈ programs) {a b : Address} {s t : Part}
    (hs : p.part? a = some s) (ht : q.part? b = some t) {id : NodeId} (his : s.id? = some id)
    (hit : t.id? = some id) : p = q ∧ a = b ∧ s = t := by
  obtain ⟨rfl, rfl⟩ := h.unique p hp q hq a b s t hs ht id (Part.id?_mem_ids his)
    (Part.id?_mem_ids hit)
  rw [hs] at ht
  cases ht
  exact ⟨rfl, rfl, rfl⟩

end DistinctNodes

end Lox

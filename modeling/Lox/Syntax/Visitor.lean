import Lox.Syntax.Printer

/-!
# Visitors

A visitor treats nodes by their kind. It may leave kinds out; visiting a node of such a kind fails.
-/

namespace Lox

/-- A node of a tree. -/
inductive Node
  | expr (e : Expr)
  | stmt (s : Stmt)

namespace Node

def kind : Node → NodeKind
  | expr e => e.kind
  | stmt s => s.kind

/-- The written form of a node. -/
def render : Node → String
  | expr e => e.render
  | stmt s => s.render

end Node

/-- What is done with the nodes of each kind that is not left out. -/
def Visitor (α : Type) : Type := NodeKind → Option (Node → α)

namespace Visitor

variable {α : Type}

/-- The visitor that leaves every kind out. -/
def blank : Visitor α := fun _ => none

/-- The wording of a failed visit. -/
def failureMessage (k : NodeKind) : String := "No visitor for " ++ k.name

/-- Visits a node; fails with its kind if that kind is left out. -/
def visit (v : Visitor α) (n : Node) : Except NodeKind α :=
  match v n.kind with
  | some f => .ok (f n)
  | none => .error n.kind

end Visitor

end Lox

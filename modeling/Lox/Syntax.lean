import Lox.Token

/-!
# Syntax trees

Expressions, statements and programs. Every node carries its own identity, because two nodes that
look alike may mean different variables: resolution is a table from node identities to distances.
-/

namespace Lox

/-- The identity of a node. -/
abbrev NodeId := Nat

/-- A variable named in an expression. -/
structure VarRef where
  id : NodeId
  name : Token
  deriving DecidableEq

inductive Expr
  | literal (id : NodeId) (value : Literal)
  | var (ref : VarRef)
  /-- The target is any expression; only a variable can be assigned. -/
  | assign (id : NodeId) (target : Expr) (equals : Token) (value : Expr)
  | binary (id : NodeId) (left : Expr) (operator : Token) (right : Expr)
  | logical (id : NodeId) (left : Expr) (operator : Token) (right : Expr)
  | unary (id : NodeId) (operator : Token) (operand : Expr)
  | grouping (id : NodeId) (inner : Expr)
  | call (id : NodeId) (callee : Expr) (paren : Token) (arguments : List Expr)
  | get (id : NodeId) (object : Expr) (name : Token)
  | set (id : NodeId) (object : Expr) (name : Token) (value : Expr)
  | this (id : NodeId) (keyword : Token)
  | super (id : NodeId) (keyword : Token) (method : Token)

mutual

inductive Stmt
  | block (id : NodeId) (body : List Stmt)
  | expression (id : NodeId) (expr : Expr)
  | print (id : NodeId) (expr : Expr)
  | varDecl (id : NodeId) (name : Token) (initializer : Option Expr)
  | branch (id : NodeId) (condition : Expr) (thenBranch : Stmt) (elseBranch : Option Stmt)
  | loop (id : NodeId) (condition : Expr) (body : Stmt)
  | function (declaration : FunctionDecl)
  | ret (id : NodeId) (keyword : Token) (value : Option Expr)
  | classDecl (id : NodeId) (name : Token) (superclass : Option VarRef)
      (methods : List FunctionDecl)

/-- A named function or a method: its parameters and the statements of its body. -/
structure FunctionDecl where
  id : NodeId
  name : Token
  params : List Token
  body : List Stmt

end

abbrev Program := List Stmt

/-- The name an assignment writes to: that of its target if the target is a variable, and
otherwise the token of the assignment itself, which names nothing. -/
def Expr.assignedName (target : Expr) (equals : Token) : Token :=
  match target with
  | .var ref => ref.name
  | _ => equals

namespace FunctionDecl

/-- Calls give a function exactly as many arguments as it has parameters. -/
def arity (f : FunctionDecl) : Nat := f.params.length

/-- A method of this name initializes the instances of its class. -/
def initializerName : String := "init"

end FunctionDecl

/-! ### Kinds of node -/

inductive NodeKind
  | literal | varRef | assign | binaryOp | logicalOp | unaryOp | grouping | call
  | getProperty | setProperty | this | super
  | block | expressionStatement | printStatement | varDecl | ifStatement | whileStatement
  | functionDef | returnStatement | classDef
  deriving DecidableEq

namespace NodeKind

def name : NodeKind → String
  | literal => "Literal"
  | varRef => "Variable"
  | assign => "Assign"
  | binaryOp => "BinaryOp"
  | logicalOp => "LogicalOp"
  | unaryOp => "UnaryOp"
  | grouping => "Grouping"
  | call => "Call"
  | getProperty => "GetProperty"
  | setProperty => "SetProperty"
  | this => "This"
  | super => "Super"
  | block => "Block"
  | expressionStatement => "ExpressionStatement"
  | printStatement => "PrintStatement"
  | varDecl => "VarDecl"
  | ifStatement => "IfStatement"
  | whileStatement => "WhileStatement"
  | functionDef => "FunctionDef"
  | returnStatement => "ReturnStatement"
  | classDef => "ClassDef"

end NodeKind

def Expr.kind : Expr → NodeKind
  | .literal .. => .literal
  | .var .. => .varRef
  | .assign .. => .assign
  | .binary .. => .binaryOp
  | .logical .. => .logicalOp
  | .unary .. => .unaryOp
  | .grouping .. => .grouping
  | .call .. => .call
  | .get .. => .getProperty
  | .set .. => .setProperty
  | .this .. => .this
  | .super .. => .super

def Stmt.kind : Stmt → NodeKind
  | .block .. => .block
  | .expression .. => .expressionStatement
  | .print .. => .printStatement
  | .varDecl .. => .varDecl
  | .branch .. => .ifStatement
  | .loop .. => .whileStatement
  | .function .. => .functionDef
  | .ret .. => .returnStatement
  | .classDecl .. => .classDef

end Lox

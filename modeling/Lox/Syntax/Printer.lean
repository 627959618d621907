import Lox.Syntax
import Lox.Number.Text

/-!
# Printing trees

A tree is written as a parenthesized list that starts with a word or operator: `(+ 1.0 (group x))`.
Statement lists, arguments and methods follow the fixed parts of their node; absent parts are left
out, and where that would be ambiguous the leading word differs (`if`, `if-else`).
-/

namespace Lox

/-- The parts of a node, separated by single spaces, in parentheses. -/
def parenthesize (parts : List String) : String :=
  "(" ++ " ".intercalate parts ++ ")"

/-- A literal in a tree; the text of a string stands between double quotes as it is. -/
def Literal.treeText : Literal → String
  | .nil => "nil"
  | .bool true => "true"
  | .bool false => "false"
  | .number x => Number.text .tree x
  | .integer i => toString i
  | .string s => "\"" ++ s ++ "\""

mutual

/-- The written form of an expression. -/
def Expr.render : Expr → String
  | .literal _ value => value.treeText
  | .var ref => ref.name.lexeme
  | .assign _ target _ value => parenthesize ["=", target.render, value.render]
  | .binary _ left operator right => parenthesize [operator.lexeme, left.render, right.render]
  | .logical _ left operator right => parenthesize [operator.lexeme, left.render, right.render]
  | .unary _ operator operand => parenthesize [operator.lexeme, operand.render]
  | .grouping _ inner => parenthesize ["group", inner.render]
  | .call _ callee _ arguments => parenthesize ("call" :: callee.render :: renderExprs arguments)
  | .get _ object name => parenthesize [".", object.render, name.lexeme]
  | .set _ object name value =>
    parenthesize ["=", parenthesize [".", object.render, name.lexeme], value.render]
  | .this .. => "this"
  | .super _ _ method => parenthesize ["super", method.lexeme]

def renderExprs : List Expr → List String
  | [] => []
  | e :: es => e.render :: renderExprs es

end

mutual

/-- The written form of a statement. -/
def Stmt.render : Stmt → String
  | .block _ body => parenthesize ("block" :: renderStmts body)
  | .expression _ e => parenthesize [";", e.render]
  | .print _ e => parenthesize ["print", e.render]
  | .varDecl _ name none => parenthesize ["var", name.lexeme]
  | .varDecl _ name (some e) => parenthesize ["var", name.lexeme, e.render]
  | .branch _ condition thenBranch none => parenthesize ["if", condition.render, thenBranch.render]
  | .branch _ condition thenBranch (some elseBranch) =>
    parenthesize ["if-else", condition.render, thenBranch.render, elseBranch.render]
  | .loop _ condition body => parenthesize ["while", condition.render, body.render]
  | .function f => f.render
  | .ret _ _ none => parenthesize ["return"]
  | .ret _ _ (some e) => parenthesize ["return", e.render]
  | .classDecl _ name none methods =>
    parenthesize ("class" :: name.lexeme :: renderFunctions methods)
  | .classDecl _ name (some superclass) methods =>
    parenthesize
      ("class" :: name.lexeme :: "<" :: superclass.name.lexeme :: renderFunctions methods)

/-- The written form of a function; its parameters stand in parentheses of their own. -/
def FunctionDecl.render : FunctionDecl → String
  | ⟨_, name, params, body⟩ =>
    let signature := parenthesize (params.map Token.lexeme)
    parenthesize ("fun" :: name.lexeme :: signature :: renderStmts body)

def renderStmts : List Stmt → List String
  | [] => []
  | s :: ss => s.render :: renderStmts ss

def renderFunctions : List FunctionDecl → List String
  | [] => []
  | f :: fs => f.render :: renderFunctions fs

end

end Lox

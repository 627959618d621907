import Lox.Token
import Lox.Number.Text
import Lox.Text.Quoted

/-!
# The text of a token

A token is shown as its kind, its lexeme and, unless it is nil, its literal.
-/

namespace Lox

/-- A literal inside the text of a token, where strings are quoted; nil is not shown. -/
def Literal.quotedText? : Literal → Option String
  | .nil => none
  | .bool true => some "True"
  | .bool false => some "False"
  | .number x => some (Number.text .tree x)
  | .integer i => some (toString i)
  | .string s => some (Text.quoted s)

/-- The text of a token. -/
def Token.text (t : Token) : String :=
  match t.literal.quotedText? with
  | none => t.kind.name ++ " " ++ t.lexeme
  | some literal => t.kind.name ++ " " ++ t.lexeme ++ " " ++ literal

end Lox

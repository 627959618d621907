/-!
# Tokens

The lexical units of a program, as a scanner hands them over: a kind, the text it was read from,
the literal it carries, and the line it stands on.
-/

namespace Lox

/-- The kinds of token: punctuation, operators, kinds that carry a literal, keywords, and the end
of the input. -/
inductive TokenKind
  | leftParen | rightParen | leftBrace | rightBrace | comma | dot | minus | plus | semicolon
  | slash | star
  | bang | bangEqual | equal | equalEqual | greater | greaterEqual | less | lessEqual
  | identifier | string | number
  | kwAnd | kwClass | kwElse | kwFalse | kwFun | kwFor | kwIf | kwNil | kwOr | kwPrint | kwReturn
  | kwSuper | kwThis | kwTrue | kwVar | kwWhile
  | endOfInput
  deriving DecidableEq

namespace TokenKind

/-- Every kind, in the order of their numbers. -/
def all : List TokenKind :=
  [leftParen, rightParen, leftBrace, rightBrace, comma, dot, minus, plus, semicolon, slash, star,
   bang, bangEqual, equal, equalEqual, greater, greaterEqual, less, lessEqual,
   identifier, string, number,
   kwAnd, kwClass, kwElse, kwFalse, kwFun, kwFor, kwIf, kwNil, kwOr, kwPrint, kwReturn,
   kwSuper, kwThis, kwTrue, kwVar, kwWhile, endOfInput]

/-- The number of a kind, counted from 1. -/
def ordinal (k : TokenKind) : Nat := all.idxOf k + 1

theorem all_getElem?_ordinal (k : TokenKind) : all[k.ordinal - 1]? = some k := by
  cases k <;> decide

/-- The name of a kind, as diagnostics tools show it. -/
def name : TokenKind → String
  | leftParen => "LEFT_PAREN"
  | rightParen => "RIGHT_PAREN"
  | leftBrace => "LEFT_BRACE"
  | rightBrace => "RIGHT_BRACE"
  | comma => "COMMA"
  | dot => "DOT"
  | minus => "MINUS"
  | plus => "PLUS"
  | semicolon => "SEMICOLON"
  | slash => "SLASH"
  | star => "STAR"
  | bang => "BANG"
  | bangEqual => "BANG_EQUAL"
  | equal => "EQUAL"
  | equalEqual => "EQUAL_EQUAL"
  | greater => "GREATER"
  | greaterEqual => "GREATER_EQUAL"
  | less => "LESS"
  | lessEqual => "LESS_EQUAL"
  | identifier => "IDENTIFIER"
  | string => "STRING"
  | number => "NUMBER"
  | kwAnd => "AND"
  | kwClass => "CLASS"
  | kwElse => "ELSE"
  | kwFalse => "FALSE"
  | kwFun => "FUN"
  | kwFor => "FOR"
  | kwIf => "IF"
  | kwNil => "NIL"
  | kwOr => "OR"
  | kwPrint => "PRINT"
  | kwReturn => "RETURN"
  | kwSuper => "SUPER"
  | kwThis => "THIS"
  | kwTrue => "TRUE"
  | kwVar => "VAR"
  | kwWhile => "WHILE"
  | endOfInput => "EOF"

/-- The kind of a given name. -/
def ofName? (s : String) : Option TokenKind := all.find? (·.name == s)

theorem ofName?_name (k : TokenKind) : ofName? k.name = some k := by
  cases k <;> decide

end TokenKind

/-- The reserved words, each with the kind of token it makes. -/
def keywords : List (String × TokenKind) :=
  [("and", .kwAnd), ("class", .kwClass), ("else", .kwElse), ("false", .kwFalse), ("for", .kwFor),
   ("fun", .kwFun), ("if", .kwIf), ("nil", .kwNil), ("or", .kwOr), ("print", .kwPrint),
   ("return", .kwReturn), ("super", .kwSuper), ("this", .kwThis), ("true", .kwTrue),
   ("var", .kwVar), ("while", .kwWhile)]

/-- The kind a reserved word makes; `none` for any other text. -/
def keyword? (lexeme : String) : Option TokenKind := keywords.lookup lexeme

/-- What a literal stands for. A whole number may be written as an integer of any size; it becomes
a double only when it is evaluated. -/
inductive Literal
  | nil
  | bool (value : Bool)
  | number (value : Float)
  | integer (value : Int)
  | string (value : String)
  deriving DecidableEq

/-- A token. Its line counts from 1 in the source text, but any number is kept as it is. -/
structure Token where
  kind : TokenKind
  lexeme : String
  literal : Literal := .nil
  line : Int := 0
  deriving DecidableEq

end Lox

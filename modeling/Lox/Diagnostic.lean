import Lox.Token

/-!
# Diagnostics

A message about a place in a program, with a code and hints, and the log that collects them.
-/

namespace Lox

inductive Severity
  | error | warning
  deriving DecidableEq

def Severity.name : Severity → String
  | error => "error"
  | warning => "warning"

/-- A message about a place in a program. Its lexeme is absent at the end of the input. -/
structure Diagnostic where
  code : String
  message : String
  severity : Severity
  line : Int
  lexeme : Option String := none
  hints : List String := []
  deriving DecidableEq

namespace Diagnostic

/-- An error about a token. -/
def atToken (code message : String) (token : Token) (hints : List String) : Diagnostic where
  code := code
  message := message
  severity := .error
  line := token.line
  lexeme := if token.kind = .endOfInput then none else some token.lexeme
  hints := hints

/-- The place, as it is named in a formatted diagnostic. -/
def location (d : Diagnostic) : String :=
  match d.lexeme with
  | none => "at end"
  | some lexeme => "at '" ++ lexeme ++ "'"

/-- One line with the message, then one line for each hint. The place is left out unless
`withPlace` is set. -/
def format (d : Diagnostic) (withPlace : Bool) : String :=
  let place := if withPlace then " " ++ d.location else ""
  let header := "[line " ++ toString d.line ++ "] " ++ d.severity.name ++ "[" ++ d.code ++ "]"
    ++ place ++ ": " ++ d.message
  "\n".intercalate (header :: d.hints.map ("    = hint: " ++ ·))

end Diagnostic

/-- Diagnostics in the order in which they were reported. -/
structure DiagnosticLog where
  entries : List Diagnostic := []
  deriving DecidableEq

namespace DiagnosticLog

def add (log : DiagnosticLog) (d : Diagnostic) : DiagnosticLog := ⟨log.entries ++ [d]⟩

def count (log : DiagnosticLog) (severity : Severity) : Nat :=
  log.entries.countP (·.severity = severity)

def errorCount (log : DiagnosticLog) : Nat := log.count .error

def warningCount (log : DiagnosticLog) : Nat := log.count .warning

def hasErrors (log : DiagnosticLog) : Bool := 0 < log.errorCount

/-- All diagnostics, and a line of totals if there is an error among them. -/
def format (log : DiagnosticLog) (withPlace : Bool) : String :=
  let totals := toString log.errorCount ++ " error(s), " ++ toString log.warningCount
    ++ " warning(s)"
  "\n".intercalate (log.entries.map (·.format withPlace)
    ++ if log.hasErrors then [totals] else [])

end DiagnosticLog

end Lox

import Lox.Interpreter

/-!
# Sessions

A session takes programs one after the other: each is resolved on its own, and run on the globals
of the session if it breaks no static rule. The session's stream is everything its programs have
printed.
-/

namespace Lox

structure Session where
  interpreter : Interpreter
  stream : String := ""

/-- What becomes of a program. -/
inductive RunResult
  /-- It breaks static rules, and was not run. -/
  | rejected (errors : List StaticError)
  | succeeded (output : List String)
  | failed (output : List String) (error : RuntimeError)
  | crashed (output : List String) (fault : Fault)
  deriving DecidableEq

namespace RunResult

def ofReport (r : Report) : RunResult :=
  match r.ending with
  | .completed => succeeded r.output
  | .failed e => failed r.output e
  | .crashed fault => crashed r.output fault

def success : RunResult → Bool
  | succeeded _ => true
  | _ => false

def hasStaticErrors : RunResult → Bool
  | rejected _ => true
  | _ => false

def hasRuntimeError : RunResult → Bool
  | failed .. => true
  | _ => false

/-- The lines printed by this run. -/
def output : RunResult → List String
  | rejected _ => []
  | succeeded lines => lines
  | failed lines _ => lines
  | crashed lines _ => lines

def diagnostics : RunResult → List Diagnostic
  | rejected errors => errors.map StaticError.diagnostic
  | failed _ e => [e.diagnostic]
  | succeeded _ => []
  | crashed .. => []

/-- The diagnostics as one text, if there are any. -/
def errorMessage? (r : RunResult) : Option String :=
  match r.diagnostics with
  | [] => none
  | ds => some ("\n".intercalate (ds.map (·.format true)))

end RunResult

namespace Session

def create (registry : NativeRegistry) (config : Config) : Except String Session :=
  (Interpreter.create registry config).map fun i => { interpreter := i }

/-- Resolves a program and, unless it breaks a static rule, runs it. -/
def run (fuel : Nat) (s : Session) (program : Program) : Option (RunResult × Session) :=
  let resolved := program.resolve
  if resolved.hasErrors then some (.rejected resolved.errors, s)
  else
    match s.interpreter.interpret fuel program resolved.table with
    | none => none
    | some (report, interpreter) =>
      some (.ofReport report, { interpreter, stream := s.stream ++ textOfLines report.output })

end Session

/-- Resolves and runs one program in a session of its own. -/
def runOnce (fuel : Nat) (registry : NativeRegistry) (config : Config) (program : Program) :
    Except String (Option RunResult) :=
  (Session.create registry config).map fun s => (s.run fuel program).map (·.1)

end Lox

import Lox.Eval
import Lox.Native
import Lox.Config

/-!
# The interpreter

An interpreter runs programs one after the other on the same globals. It keeps the resolution of
every program it was given, because functions of an earlier program may still be called. Whatever
way a program ends, the interpreter is back at the globals, outside all calls.
-/

namespace Lox

structure Interpreter where
  config : Config
  globals : ScopeId
  store : Store
  scope : ScopeId
  depth : Nat := 0
  table : Resolution := ∅

/-- How a program ends. -/
inductive Ending
  | completed
  /-- An error of the program, which is reported. -/
  | failed (error : RuntimeError)
  /-- Any other fault. -/
  | crashed (fault : Fault)
  deriving DecidableEq

/-- What a program did: how it ended, and the lines it printed until then. -/
structure Report where
  ending : Ending
  output : List String
  deriving DecidableEq

/-- Lines, each followed by a line break. -/
def textOfLines (lines : List String) : String := String.join (lines.map (· ++ "\n"))

namespace Report

/-- What a program writes to the standard output. -/
def standardOutput (r : Report) : String := textOfLines r.output

/-- What is written to the standard error stream when a program has ended. -/
def standardError (config : Config) (r : Report) : String :=
  match r.ending with
  | .failed e => textOfLines [e.diagnostic.format config.showSource]
  | _ => ""

end Report

namespace Interpreter

/-- A new interpreter with the natives its configuration names; fails with the first name that is
not registered. -/
def create (registry : NativeRegistry) (config : Config) : Except String Interpreter :=
  let (globals, store) := ({} : Store).newScope {}
  match registry.install globals config.natives store with
  | (some unknown, _) => .error unknown
  | (none, store) => .ok { config, globals, store, scope := globals }

/-- Adds the resolution of a program; on nodes that were resolved before, the new one counts. -/
def learn (i : Interpreter) (resolution : Resolution) : Interpreter :=
  { i with table := i.table ∪ resolution }

def context (i : Interpreter) : Context where
  globals := i.globals
  table := i.table
  maxDepth := i.config.maxCallDepth

/-- The state in which a run starts. -/
def start (i : Interpreter) : RunState where
  store := i.store
  scope := i.scope
  depth := i.depth

/-- The interpreter after a run. -/
def resume (i : Interpreter) (s : RunState) : Interpreter :=
  { i with store := s.store, scope := s.scope, depth := s.depth }

/-- The interpreter back at the globals, outside all calls. -/
def atRest (i : Interpreter) : Interpreter :=
  { i with scope := i.globals, depth := 0 }

/-- The ending a fault leads to. -/
def endingOf : Fault → Ending
  | .error e => .failed e
  | fault => .crashed fault

/-- Runs a program with its resolution. A `return` outside of all functions stops nothing. Nothing
is run if the host cannot set aside the stack; there is no result if the fuel does not last. -/
def interpret (fuel : Nat) (i : Interpreter) (program : Program) (resolution : Resolution) :
    Option (Report × Interpreter) :=
  let i := i.learn resolution
  if i.config.fitsStack then
    match Action.throughout (execute i.context fuel) program i.start with
    | .ok _ s => some (⟨.completed, s.printed.toList⟩, (i.resume s).atRest)
    | .raised fault s => some (⟨endingOf fault, s.printed.toList⟩, (i.resume s).atRest)
    | .outOfFuel => none
  else some (⟨.crashed .stackTooLarge, []⟩, i.atRest)

/-- Calls a callable object from the host, without a check of its arguments. -/
def invoke (fuel : Nat) (i : Interpreter) (callee : Callable) (arguments : List Value) :
    Option (Except Fault Value × List String × Interpreter) :=
  match Run.invoke (Action.untilReturn (execute i.context fuel)) callee arguments i.start with
  | .ok v s => some (.ok v, s.printed.toList, i.resume s)
  | .raised fault s => some (.error fault, s.printed.toList, i.resume s)
  | .outOfFuel => none

end Interpreter

end Lox

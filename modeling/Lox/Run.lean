import Lox.Store
import Lox.Resolver

/-!
# Runs

A run changes a state and ends with a result, with a fault, or by using up its fuel. A fault keeps
the state in which it arose: what was printed and stored before stays so.

`inScope` and `deeper` are the only ways to change the current scope and the call depth; both undo
the change however the run inside them ends.
-/

namespace Lox

/-- Why a run stops before its end. Only an `error` is the fault of the program as its author sees
it; the others say that the tree, the resolution table and the interpreter do not fit. -/
inductive Fault
  | error (e : RuntimeError)
  | scope (fault : ScopeFault)
  /-- An integer literal that no double is near to. -/
  | integerTooLarge
  /-- A `super` that is missing in the resolution table. -/
  | unresolvedSuper
  /-- A `super` that leads to a value which is not a class. -/
  | superNotClass
  | unknownUnary (lexeme : String)
  | unknownBinary (lexeme : String)
  /-- A limit on nested calls for which the host cannot set aside the stack. -/
  | stackTooLarge
  deriving DecidableEq

namespace Fault

/-- The wording of a fault, for those that have one. -/
def message? : Fault → Option String
  | error e => some (e.diagnostic.format true)
  | scope fault => some fault.message
  | integerTooLarge => some "int too large to convert to float"
  | unresolvedSuper => none
  | superNotClass => none
  | unknownUnary lexeme => some ("Unknown unary operator: " ++ lexeme)
  | unknownBinary lexeme => some ("Unknown binary operator: " ++ lexeme)
  | stackTooLarge => some "Python int too large to convert to C int"

end Fault

/-- How an action on a state ends. -/
inductive Outcome (σ α : Type)
  | ok (result : α) (state : σ)
  | raised (fault : Fault) (state : σ)
  | outOfFuel

/-- An action on a state, with a result in `α`. -/
def Action (σ α : Type) : Type := σ → Outcome σ α

/-- How a statement ends: normally, or by a `return` on its way to the enclosing call. -/
inductive Completion
  | normal
  | returned (value : Value)
  deriving DecidableEq

namespace Action

variable {σ α β : Type}

@[always_inline, inline]
def pure (a : α) : Action σ α := fun s => .ok a s

@[always_inline, inline]
def bind (x : Action σ α) (f : α → Action σ β) : Action σ β := fun s =>
  match x s with
  | .ok a s => f a s
  | .raised fault s => .raised fault s
  | .outOfFuel => .outOfFuel

@[always_inline]
instance : Monad (Action σ) where
  pure := Action.pure
  bind := Action.bind

theorem bind_apply (x : Action σ α) (f : α → Action σ β) (s : σ) :
    (x >>= f) s = match x s with
      | .ok a s => f a s
      | .raised fault s => .raised fault s
      | .outOfFuel => .outOfFuel := rfl

instance : LawfulMonad (Action σ) := by
  refine LawfulMonad.mk' (Action σ) ?_ ?_ ?_
  · intro α x
    funext s
    show (x >>= fun a => Action.pure a) s = x s
    rw [bind_apply]
    cases x s <;> rfl
  · intro α β a f
    rfl
  · intro α β γ x f g
    funext s
    rw [bind_apply, bind_apply, bind_apply]
    cases x s <;> rfl

@[inline]
def raise (fault : Fault) : Action σ α := fun s => .raised fault s

/-- Stops with an error at a token. -/
@[inline]
def fail (cause : RuntimeCause) (token : Token) : Action σ α := raise (.error ⟨cause, token⟩)

@[inline]
def outOfFuel : Action σ α := fun _ => .outOfFuel

/-- A result that does not depend on the state. -/
@[inline]
def ofExcept : Except Fault α → Action σ α
  | .ok a => pure a
  | .error fault => raise fault

/-- The results of the actions over a list, in its order. -/
def collect (f : α → Action σ β) : List α → Action σ (List β)
  | [] => pure []
  | a :: as => do
    let b ← f a
    let bs ← collect f as
    return b :: bs

/-- The actions over a list in its order, up to one that returns. -/
def untilReturn (f : α → Action σ Completion) : List α → Action σ Completion
  | [] => pure .normal
  | a :: as => do
    match ← f a with
    | .normal => untilReturn f as
    | .returned v => return .returned v

/-- The actions over a list in its order, whatever they return. -/
def throughout (f : α → Action σ Completion) : List α → Action σ Unit
  | [] => pure ()
  | a :: as => do
    let _ ← f a
    throughout f as

end Action

/-- What a run changes. -/
structure RunState where
  store : Store
  scope : ScopeId
  depth : Nat := 0
  printed : Array String := #[]

/-- A run with a result in `α`. -/
abbrev Run (α : Type) : Type := Action RunState α

namespace Run

variable {α : Type}

@[inline]
def currentScope : Run ScopeId := fun s => .ok s.scope s

@[inline]
def callDepth : Run Nat := fun s => .ok s.depth s

/-- Reads the store. -/
@[inline]
def ask (f : Store → α) : Run α := fun s => .ok (f s.store) s

/-- Changes the store. -/
@[inline]
def modifyStore (f : Store → Store) : Run Unit := fun s => .ok () { s with store := f s.store }

/-- Makes an object in the store. -/
@[inline]
def alloc (f : Store → α × Store) : Run α := fun s =>
  let (a, store) := f s.store
  .ok a { s with store := store }

/-- Reads a resolved local. -/
@[inline]
def ofScope (x : Except ScopeFault α) : Run α :=
  match x with
  | .ok a => pure a
  | .error fault => Action.raise (.scope fault)

/-- One printed line. -/
@[inline]
def print (line : String) : Run Unit := fun s => .ok () { s with printed := s.printed.push line }

/-- A run in another scope, after which the current scope is what it was. -/
@[inline]
def inScope (scope : ScopeId) (x : Run α) : Run α := fun s =>
  match x { s with scope := scope } with
  | .ok a s' => .ok a { s' with scope := s.scope }
  | .raised fault s' => .raised fault { s' with scope := s.scope }
  | .outOfFuel => .outOfFuel

/-- A run one call deeper. -/
@[inline]
def deeper (x : Run α) : Run α := fun s =>
  match x { s with depth := s.depth + 1 } with
  | .ok a s' => .ok a { s' with depth := s'.depth - 1 }
  | .raised fault s' => .raised fault { s' with depth := s'.depth - 1 }
  | .outOfFuel => .outOfFuel

end Run

end Lox

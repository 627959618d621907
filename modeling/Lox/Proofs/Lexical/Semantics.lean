import Lox.Interpreter

/-!
# Lexical scoping, as in a textbook

A second semantics, without scopes that change and without a table.  A local scope is an immutable
map from names to locations; the values of variables are kept in cells, one for each location.

* A declaration takes a fresh location, and what comes after it in its scope is run with the larger
  map: for a variable from its own initializer on, for a function or class from its own body on.
* A function or method captures the map in force where it is declared.  A call extends that map with
  fresh locations for the parameters; `this` and `super` are locations put around methods.
* A name that the map does not have is a global, looked up by name when it is used.

Operators, properties and the objects on the heap are those of the evaluator; nothing that concerns
names is.
-/

namespace Lox.Lexical

/-- Where the value of one local variable is kept. -/
structure Location where
  index : Nat
  deriving DecidableEq

/-- The local names in force at a place; at the top level there are none, and declarations are
global. -/
inductive Env
  | top
  | inner (names : Std.ExtTreeMap String Location)

namespace Env

def names : Env → Std.ExtTreeMap String Location
  | top => ∅
  | inner names => names

def find? (ρ : Env) (x : String) : Option Location := ρ.names[x]?

/-- A new scope, with no names of its own yet. -/
def enter (ρ : Env) : Env := .inner ρ.names

def extend (ρ : Env) (x : String) (ℓ : Location) : Env := .inner (ρ.names.insert x ℓ)

end Env

/-- What a run changes.  The objects hold no scopes: the closure of a function is the number of the
map it captured.  A cell is empty until its variable has a value. -/
structure State where
  objects : Store := {}
  captured : Array Env := #[]
  cells : Array (Option Value) := #[]
  globals : Bindings := ∅
  depth : Nat := 0
  printed : Array String := #[]

/-- A run with a result in `α`. -/
abbrev Eval (α : Type) : Type := Action State α

namespace Eval

variable {α : Type}

/-- Reads the objects. -/
def ask (f : Store → α) : Eval α := fun l => .ok (f l.objects) l

/-- Makes an object. -/
def alloc (f : Store → α × Store) : Eval α := fun l =>
  .ok (f l.objects).1 { l with objects := (f l.objects).2 }

def print (line : String) : Eval Unit := fun l => .ok () { l with printed := l.printed.push line }

/-- A fresh location, with a cell that is empty or holds a value. -/
def fresh (v : Option Value) : Eval Location := fun l =>
  .ok ⟨l.cells.size⟩ { l with cells := l.cells.push v }

def write (ℓ : Location) (v : Value) : Eval Unit := fun l =>
  .ok () { l with cells := l.cells.setIfInBounds ℓ.index (some v) }

/-- Reads the cell of a variable. -/
def read (x : String) (ℓ : Location) : Eval Value := fun l =>
  match l.cells[ℓ.index]? with
  | some (some v) => .ok v l
  | _ => .raised (.scope (.unbound x 0)) l

/-- Captures a map. -/
def capture (ρ : Env) : Eval ScopeId := fun l =>
  .ok ⟨l.captured.size⟩ { l with captured := l.captured.push ρ }

/-- The map a function captured. -/
def capturedBy (f : FunctionObject) : Eval Env := fun l =>
  .ok (l.captured[f.closure.index]?.getD .top) l

def callDepth : Eval Nat := fun l => .ok l.depth l

/-- A run one call deeper. -/
def deeper (x : Eval α) : Eval α := fun l =>
  match x { l with depth := l.depth + 1 } with
  | .ok a l' => .ok a { l' with depth := l'.depth - 1 }
  | .raised fault l' => .raised fault { l' with depth := l'.depth - 1 }
  | .outOfFuel => .outOfFuel

/-! ### Names -/

def readGlobal (name : Token) : Eval Value := fun l =>
  match l.globals[name.lexeme]? with
  | some v => .ok v l
  | none => Action.fail .undefinedVariable name l

/-- Binds a global name. -/
def defineGlobal (x : String) (v : Value) : Eval Unit := fun l =>
  .ok () { l with globals := l.globals.insert x v }

def lookUp (ρ : Env) (name : Token) : Eval Value :=
  match ρ.find? name.lexeme with
  | some ℓ => read name.lexeme ℓ
  | none => readGlobal name

/-- An assignment; a global has to be bound already. -/
def assign (ρ : Env) (name : Token) (v : Value) : Eval Unit :=
  match ρ.find? name.lexeme with
  | some ℓ => write ℓ v
  | none => do
    let _ ← readGlobal name
    defineGlobal name.lexeme v

/-- A declaration in a local scope takes a fresh location, without a value yet. -/
def declare (ρ : Env) (x : String) : Eval Env :=
  match ρ with
  | .top => pure .top
  | .inner _ => do
    let ℓ ← fresh none
    return ρ.extend x ℓ

/-- Gives a declared name its value. -/
def define (ρ : Env) (x : String) (v : Value) : Eval Unit :=
  match ρ.find? x with
  | some ℓ => write ℓ v
  | none => defineGlobal x v

/-- A scope around another, or a name in it, that has its value at once. -/
def bindName (ρ : Env) (x : String) (v : Value) : Eval Env := do
  let ℓ ← fresh (some v)
  return ρ.extend x ℓ

/-! ### Methods and calls -/

/-- A function with `this` put around it. -/
def bind (f : FunctionObject) (this : Value) : Eval FunctionObject := do
  let ρ ← bindName (← capturedBy f).enter "this" this
  return { f with closure := ← capture ρ }

def bindValue (f : FunctionObject) (this : Value) : Eval Value := do
  let f ← bind f this
  return .function (← alloc (·.newFunction f))

def getProperty (i : InstanceId) (name : Token) : Eval Value := do
  match ← ask (·.member? i name.lexeme) with
  | some (.field v) => return v
  | some (.method f) => bindValue f (.inst i)
  | none => Action.fail .undefinedProperty name

/-- The value of a name that is certain to be local. -/
def readLocal (ρ : Env) (x : String) : Eval Value :=
  match ρ.find? x with
  | some ℓ => read x ℓ
  | none => Action.raise (.scope (.unbound x 0))

/-- A method of the superclass, with the current `this` put around it. -/
def superMethod (ρ : Env) (method : Token) : Eval Value := do
  let superclass ← readLocal ρ "super"
  let this ← readLocal ρ "this"
  match superclass with
  | .cls c =>
    match ← ask (·.method? c method.lexeme) with
    | some f => bindValue f this
    | none => Action.fail .undefinedProperty method
  | _ => Action.raise .superNotClass

/-- Parameters, each at a fresh location with its argument. -/
def bindParams : Env → List (Token × Value) → Eval Env
  | ρ, [] => pure ρ
  | ρ, (param, v) :: rest => do bindParams (← bindName ρ param.lexeme v) rest

/-- Calls a function: its body is run in the map it captured, extended with its parameters. -/
def callFunction (runBody : Env → List Stmt → Eval Completion) (f : FunctionObject)
    (arguments : List Value) : Eval Value := do
  let ρ ← capturedBy f
  let completion ← runBody (← bindParams ρ.enter (f.declaration.params.zip arguments))
    f.declaration.body
  if f.isInitializer then readLocal ρ "this"
  else
    match completion with
    | .returned v => return v
    | .normal => return .nil

def construct (runBody : Env → List Stmt → Eval Completion) (c : ClassId)
    (arguments : List Value) : Eval Value := do
  let i ← alloc (·.newInstance c)
  match ← ask (·.initializer? c) with
  | none => return .inst i
  | some f =>
    let _ ← callFunction runBody (← bind f (.inst i)) arguments
    return .inst i

def invoke (runBody : Env → List Stmt → Eval Completion) (callee : Callable)
    (arguments : List Value) : Eval Value :=
  match callee with
  | .function f => callFunction runBody f arguments
  | .native n => return n.apply arguments
  | .cls c => construct runBody c arguments

/-- Calls a value, after the checks of the evaluator in their order. -/
def call (maxDepth : Nat) (runBody : Env → List Stmt → Eval Completion) (paren : Token)
    (callee : Value) (arguments : List Value) : Eval Value := do
  match ← ask (·.callable? callee) with
  | none => Action.fail .notCallable paren
  | some c =>
    let arity ← ask (·.arity c)
    if arguments.length ≠ arity then
      Action.fail (.arity arity arguments.length) paren
    else if maxDepth ≤ (← callDepth) then
      Action.fail (.stackOverflow maxDepth) paren
    else
      deeper (invoke runBody c arguments)

/-! ### Classes -/

/-- A function object that captures a map. -/
def closeOver (ρ : Env) (isInitializer : Bool) (f : FunctionDecl) : Eval FunctionId := do
  let closure ← capture ρ
  alloc (·.newFunction ⟨f, closure, isInitializer⟩)

def methodTable (ρ : Env) :
    Std.ExtTreeMap String FunctionId → List FunctionDecl → Eval (Std.ExtTreeMap String FunctionId)
  | table, [] => return table
  | table, f :: fs => do
    let id ← closeOver ρ (f.name.lexeme = FunctionDecl.initializerName) f
    methodTable ρ (table.insert f.name.lexeme id) fs

/-- The class a superclass expression has to evaluate to. -/
def superclass (name : Token) (v : Value) : Eval ClassId :=
  match v with
  | .cls c => return c
  | _ => Action.fail .superclassNotClass name

/-- Declares a class whose superclass is known; the map has its name in it from its methods on. -/
def declareClass (ρ : Env) (name : Token) (superclass : Option ClassId)
    (methods : List FunctionDecl) : Eval Env := do
  let ρ ← declare ρ name.lexeme
  define ρ name.lexeme .nil
  let around ← match superclass with
    | none => pure ρ
    | some c => bindName ρ.enter "super" (.cls c)
  let table ← methodTable around ∅ methods
  let c ← alloc (·.newClass ⟨name.lexeme, superclass, table⟩)
  define ρ name.lexeme (.cls c)
  return ρ

/-- Statements in their order, up to one that returns, each with the map the one before left. -/
def inOrder (f : Env → Stmt → Eval (Completion × Env)) : Env → List Stmt → Eval Completion
  | _, [] => pure .normal
  | ρ, s :: ss => do
    match ← f ρ s with
    | (.normal, ρ) => inOrder f ρ ss
    | (.returned v, _) => return .returned v

end Eval

/-! ### Expressions and statements -/

open Eval

variable (maxDepth : Nat)

mutual

def evaluate : Nat → Env → Expr → Eval Value
  | 0, _, _ => Action.outOfFuel
  | _ + 1, _, .literal _ value => Action.ofExcept value.evaluate
  | _ + 1, ρ, .var ref => lookUp ρ ref.name
  | n + 1, ρ, .assign _ target equals value => do
    let v ← evaluate n ρ value
    assign ρ (target.assignedName equals) v
    return v
  | n + 1, ρ, .binary _ left operator right => do
    let l ← evaluate n ρ left
    let r ← evaluate n ρ right
    Action.ofExcept (operator.applyBinary l r)
  | n + 1, ρ, .logical _ left operator right => do
    let l ← evaluate n ρ left
    if operator.decidesLogical l then return l else evaluate n ρ right
  | n + 1, ρ, .unary _ operator operand => do
    let v ← evaluate n ρ operand
    Action.ofExcept (operator.applyUnary v)
  | n + 1, ρ, .grouping _ inner => evaluate n ρ inner
  | n + 1, ρ, .call _ callee paren arguments => do
    let f ← evaluate n ρ callee
    let vs ← Action.collect (evaluate n ρ) arguments
    call maxDepth (inOrder (execute n)) paren f vs
  | n + 1, ρ, .get _ object name => do
    match ← evaluate n ρ object with
    | .inst i => getProperty i name
    | _ => Action.fail .propertyOnNonInstance name
  | n + 1, ρ, .set _ object name value => do
    match ← evaluate n ρ object with
    | .inst i =>
      let v ← evaluate n ρ value
      alloc fun objects => ((), objects.setField i name.lexeme v)
      return v
    | _ => Action.fail .fieldOnNonInstance name
  | _ + 1, ρ, .this _ keyword => lookUp ρ keyword
  | _ + 1, ρ, .super _ _ method => superMethod ρ method

/-- How a statement ends, and the map for what comes after it in its scope. -/
def execute : Nat → Env → Stmt → Eval (Completion × Env)
  | 0, _, _ => Action.outOfFuel
  | n + 1, ρ, .block _ body => return (← inOrder (execute n) ρ.enter body, ρ)
  | n + 1, ρ, .expression _ e => do
    let _ ← evaluate n ρ e
    return (.normal, ρ)
  | n + 1, ρ, .print _ e => do
    let v ← evaluate n ρ e
    print (← ask (·.display v))
    return (.normal, ρ)
  | _ + 1, ρ, .varDecl _ name none => do
    let ρ ← declare ρ name.lexeme
    define ρ name.lexeme .nil
    return (.normal, ρ)
  | n + 1, ρ, .varDecl _ name (some e) => do
    let ρ ← declare ρ name.lexeme
    let v ← evaluate n ρ e
    define ρ name.lexeme v
    return (.normal, ρ)
  | n + 1, ρ, .branch _ condition thenBranch elseBranch => do
    let v ← evaluate n ρ condition
    if v.truthy then return ((← execute n ρ thenBranch).1, ρ)
    else match elseBranch with
      | none => return (.normal, ρ)
      | some elseBranch => return ((← execute n ρ elseBranch).1, ρ)
  | n + 1, ρ, .loop id condition body => do
    let v ← evaluate n ρ condition
    if v.truthy then
      match ← execute n ρ body with
      | (.normal, _) => execute n ρ (.loop id condition body)
      | (.returned v, _) => return (.returned v, ρ)
    else return (.normal, ρ)
  | _ + 1, ρ, .function f => do
    let ρ ← declare ρ f.name.lexeme
    let id ← closeOver ρ false f
    define ρ f.name.lexeme (.function id)
    return (.normal, ρ)
  | _ + 1, ρ, .ret _ _ none => return (.returned .nil, ρ)
  | n + 1, ρ, .ret _ _ (some e) => return (.returned (← evaluate n ρ e), ρ)
  | _ + 1, ρ, .classDecl _ name none methods => return (.normal, ← declareClass ρ name none methods)
  | n + 1, ρ, .classDecl _ name (some ref) methods => do
    let c ← superclass ref.name (← evaluate n ρ (.var ref))
    return (.normal, ← declareClass ρ name (some c) methods)

end

/-! ### Programs -/

/-- Installs natives as globals, up to the first name that is not registered. -/
def install (registry : NativeRegistry) : List String → State → Except String State
  | [], l => .ok l
  | name :: rest, l =>
    match registry.get? name with
    | none => .error name
    | some n =>
      let (id, objects) := l.objects.newNative n
      install registry rest { l with objects, globals := l.globals.insert name (.native id) }

/-- How a program ends and what it prints, and the state after it; none if the fuel does not last. -/
def run (fuel : Nat) (l : State) (program : Program) : Option (Report × State) :=
  match Action.throughout (fun s => return (← execute maxDepth fuel .top s).1) program l with
  | .ok _ l => some (⟨.completed, l.printed.toList⟩, l)
  | .raised fault l => some (⟨Interpreter.endingOf fault, l.printed.toList⟩, l)
  | .outOfFuel => none

end Lox.Lexical

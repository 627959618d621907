import Lox.Value

/-!
# The store

All scopes and objects of a running program, named by their position. The store only grows: a
program can change the values of variables and fields, but no link from a scope to the one around
it, no function and no class.

A variable is reached in two ways. A local that was resolved is read and written a known number of
scopes out (`getAt`, `assignAt`); any other name is searched from a scope outwards (`get?`,
`assign?`). Searching finds the owner of a name, the nearest scope that binds it.
-/

namespace Lox

structure Store where
  scopes : Array Scope := #[]
  functions : Array FunctionObject := #[]
  natives : Array NativeFunction := #[]
  classes : Array ClassObject := #[]
  instances : Array InstanceObject := #[]

/-- A resolved distance that does not fit the scopes at hand. -/
inductive ScopeFault
  /-- There are not that many scopes. -/
  | walksPast (distance : Int)
  /-- The scope reached does not bind the name. -/
  | unbound (name : String) (distance : Int)
  deriving DecidableEq

def ScopeFault.message : ScopeFault → String
  | walksPast distance =>
    "resolved distance " ++ toString distance ++ " walks past the global environment"
  | unbound name distance =>
    "'" ++ name ++ "' is not bound " ++ toString distance ++ " scope(s) out"

namespace Store

/-! ### Objects by name -/

def scope? (st : Store) (s : ScopeId) : Option Scope := st.scopes[s.index]?

def function? (st : Store) (f : FunctionId) : Option FunctionObject := st.functions[f.index]?

def native? (st : Store) (n : NativeId) : Option NativeFunction := st.natives[n.index]?

def class? (st : Store) (c : ClassId) : Option ClassObject := st.classes[c.index]?

def instance? (st : Store) (i : InstanceId) : Option InstanceObject := st.instances[i.index]?

/-! ### Making objects -/

def newScope (st : Store) (scope : Scope) : ScopeId × Store :=
  (⟨st.scopes.size⟩, { st with scopes := st.scopes.push scope })

def newFunction (st : Store) (f : FunctionObject) : FunctionId × Store :=
  (⟨st.functions.size⟩, { st with functions := st.functions.push f })

def newNative (st : Store) (n : NativeFunction) : NativeId × Store :=
  (⟨st.natives.size⟩, { st with natives := st.natives.push n })

def newClass (st : Store) (c : ClassObject) : ClassId × Store :=
  (⟨st.classes.size⟩, { st with classes := st.classes.push c })

def newInstance (st : Store) (c : ClassId) : InstanceId × Store :=
  (⟨st.instances.size⟩, { st with instances := st.instances.push { cls := c } })

/-! ### Variables -/

/-- Binds a name in a scope, over an older binding if there is one. -/
def define (st : Store) (s : ScopeId) (name : String) (v : Value) : Store :=
  { st with scopes := st.scopes.modify s.index fun scope =>
      { scope with values := scope.values.insert name v } }

/-- The value a scope itself binds to a name. -/
def read? (st : Store) (s : ScopeId) (name : String) : Option Value :=
  (st.scope? s).bind (·.values[name]?)

def binds (st : Store) (s : ScopeId) (name : String) : Bool := (st.read? s name).isSome

def enclosing? (st : Store) (s : ScopeId) : Option ScopeId := (st.scope? s).bind (·.enclosing)

/-- Searches at most `n` scopes, from `s` outwards. -/
def ownerWithin? (st : Store) (name : String) : Nat → ScopeId → Option ScopeId
  | 0, _ => none
  | n + 1, s =>
    if st.binds s name then some s
    else match st.enclosing? s with
      | none => none
      | some e => st.ownerWithin? name n e

/-- The nearest scope that binds a name. No chain is longer than the number of scopes. -/
def owner? (st : Store) (s : ScopeId) (name : String) : Option ScopeId :=
  st.ownerWithin? name st.scopes.size s

def contains (st : Store) (s : ScopeId) (name : String) : Bool := (st.owner? s name).isSome

/-- The value of a name, from the nearest scope that binds it. -/
def get? (st : Store) (s : ScopeId) (name : String) : Option Value :=
  (st.owner? s name).bind (st.read? · name)

/-- Changes the binding of a name in the nearest scope that has one; never makes a new one. -/
def assign? (st : Store) (s : ScopeId) (name : String) (v : Value) : Option Store :=
  (st.owner? s name).map (st.define · name v)

/-- The scope exactly so many links out. -/
def ancestor? (st : Store) : Nat → ScopeId → Option ScopeId
  | 0, s => some s
  | d + 1, s =>
    match st.enclosing? s with
    | none => none
    | some e => st.ancestor? d e

/-- The scope a resolved distance leads to; one below zero leads to the scope itself. -/
def scopeAt (st : Store) (s : ScopeId) (distance : Int) : Except ScopeFault ScopeId :=
  match st.ancestor? distance.toNat s with
  | some a => .ok a
  | none => .error (.walksPast distance)

/-- Reads a resolved local. -/
def getAt (st : Store) (s : ScopeId) (distance : Int) (name : String) : Except ScopeFault Value :=
  match st.scopeAt s distance with
  | .error fault => .error fault
  | .ok a =>
    match st.read? a name with
    | some v => .ok v
    | none => .error (.unbound name distance)

/-- Writes a resolved local. -/
def assignAt (st : Store) (s : ScopeId) (distance : Int) (name : String) (v : Value) :
    Except ScopeFault Store :=
  match st.scopeAt s distance with
  | .error fault => .error fault
  | .ok a => .ok (st.define a name v)

/-- Counts at most `n` links, from `s` outwards. -/
def depthWithin (st : Store) : Nat → ScopeId → Nat
  | 0, _ => 0
  | n + 1, s =>
    match st.enclosing? s with
    | none => 0
    | some e => st.depthWithin n e + 1

/-- The number of scopes around a scope. -/
def depth (st : Store) (s : ScopeId) : Nat := st.depthWithin st.scopes.size s

/-! ### Methods and fields -/

/-- A function with `this` bound: it closes over a new scope that holds nothing else. -/
def bind (st : Store) (f : FunctionObject) (this : Value) : FunctionObject × Store :=
  let (s, st) := st.newScope { enclosing := some f.closure, values := {("this", this)} }
  ({ f with closure := s }, st)

/-- A bound function as a value of its own. -/
def bindValue (st : Store) (f : FunctionObject) (this : Value) : Value × Store :=
  let (f, st) := st.bind f this
  let (id, st) := st.newFunction f
  (.function id, st)

/-- Searches at most `n` classes, from `c` to its superclasses. -/
def findMethodWithin? (st : Store) (name : String) : Nat → ClassId → Option FunctionId
  | 0, _ => none
  | n + 1, c =>
    match st.class? c with
    | none => none
    | some cls =>
      match cls.methods[name]?, cls.superclass with
      | some f, _ => some f
      | none, none => none
      | none, some superclass => st.findMethodWithin? name n superclass

/-- The method of a class: its own, or else that of its nearest superclass which has one. -/
def findMethod? (st : Store) (c : ClassId) (name : String) : Option FunctionId :=
  st.findMethodWithin? name st.classes.size c

def method? (st : Store) (c : ClassId) (name : String) : Option FunctionObject :=
  (st.findMethod? c name).bind st.function?

/-- The method that initializes the instances of a class. -/
def initializer? (st : Store) (c : ClassId) : Option FunctionObject :=
  st.method? c FunctionDecl.initializerName

def field? (st : Store) (i : InstanceId) (name : String) : Option Value :=
  (st.instance? i).bind (·.fields[name]?)

def setField (st : Store) (i : InstanceId) (name : String) (v : Value) : Store :=
  { st with instances := st.instances.modify i.index fun object =>
      { object with fields := object.fields.insert name v } }

/-- What a property of an instance is found to be. -/
inductive Member
  | field (v : Value)
  | method (f : FunctionObject)

/-- The property of an instance: its field of that name, or else the method of its class. -/
def member? (st : Store) (i : InstanceId) (name : String) : Option Member :=
  match st.field? i name with
  | some v => some (.field v)
  | none => ((st.instance? i).bind fun object => st.method? object.cls name).map .method

end Store

/-! ### Callable objects -/

/-- What a value that can be called stands for. -/
inductive Callable
  | function (f : FunctionObject)
  | native (n : NativeFunction)
  | cls (id : ClassId)

namespace Store

/-- The callable object a value names, if it names one. -/
def callable? (st : Store) : Value → Option Callable
  | .function id => (st.function? id).map .function
  | .native id => (st.native? id).map .native
  | .cls id => (st.class? id).map fun _ => .cls id
  | _ => none

/-- The number of arguments a callable object takes; a class takes those of its initializer. -/
def arity (st : Store) : Callable → Int
  | .function f => f.arity
  | .native n => n.arity
  | .cls id =>
    match st.initializer? id with
    | some f => f.arity
    | none => 0

end Store

end Lox

import Std.Data.ExtTreeMap
import Lox.Syntax

/-!
# Values

What expressions evaluate to. Functions, classes and instances live in a store and are compared by
identity, so a value only names them; numbers are doubles and compare as such. A host may put scopes
among the values of a program, which no expression makes.
-/

namespace Lox

structure ScopeId where
  index : Nat
  deriving DecidableEq

structure FunctionId where
  index : Nat
  deriving DecidableEq

structure ClassId where
  index : Nat
  deriving DecidableEq

structure InstanceId where
  index : Nat
  deriving DecidableEq

structure NativeId where
  index : Nat
  deriving DecidableEq

inductive Value
  | nil
  | bool (value : Bool)
  | number (value : Float)
  | string (value : String)
  | function (id : FunctionId)
  | native (id : NativeId)
  | cls (id : ClassId)
  | inst (id : InstanceId)
  | scope (id : ScopeId)
  deriving DecidableEq

namespace Value

/-- Only nil and false count as false. -/
def truthy : Value → Bool
  | nil => false
  | bool b => b
  | _ => true

def isNumber : Value → Bool
  | number _ => true
  | _ => false

/-- Equality without conversion: values of different kinds are never equal, numbers are equal as
doubles (`0 = -0`, and a NaN equals nothing), and objects are equal to themselves only. -/
def equal : Value → Value → Bool
  | nil, nil => true
  | bool a, bool b => a == b
  | number a, number b => a == b
  | string a, string b => a == b
  | function a, function b => a = b
  | native a, native b => a = b
  | cls a, cls b => a = b
  | inst a, inst b => a = b
  | scope a, scope b => a = b
  | _, _ => false

/-- The name of a value's kind. -/
def typeName : Value → String
  | nil => "nil"
  | bool _ => "boolean"
  | number _ => "number"
  | string _ => "string"
  | function _ => "function"
  | native _ => "function"
  | cls _ => "class"
  | inst _ => "instance"
  | scope _ => "Environment"

/-- Values that name no object. -/
def isPlain : Value → Bool
  | nil => true
  | bool _ => true
  | number _ => true
  | string _ => true
  | _ => false

end Value

/-- Names with the values bound to them. -/
abbrev Bindings := Std.ExtTreeMap String Value

/-! ### Objects -/

/-- One scope of variables, and the scope it lies in. -/
structure Scope where
  enclosing : Option ScopeId := none
  values : Bindings := ∅

/-- A function or method with the scope it closes over. -/
structure FunctionObject where
  declaration : FunctionDecl
  closure : ScopeId
  isInitializer : Bool

namespace FunctionObject

def name (f : FunctionObject) : String := f.declaration.name.lexeme

def arity (f : FunctionObject) : Nat := f.declaration.arity

end FunctionObject

/-- A class with its own methods; others are inherited. -/
structure ClassObject where
  name : String
  superclass : Option ClassId
  methods : Std.ExtTreeMap String FunctionId

/-- An instance. Its fields are created when they are first set. -/
structure InstanceObject where
  cls : ClassId
  fields : Bindings := ∅

/-- A function supplied by the host. It depends on its arguments alone, and hands back one of them
or a value that names no object. -/
structure NativeFunction where
  name : String
  arity : Int
  doc : String
  apply : List Value → Value
  apply_known : ∀ args, apply args ∈ args ∨ (apply args).isPlain

end Lox

import Lox.Store

/-!
# Native functions

Functions the host supplies, and the registry they are installed from. Installing binds them in a
scope, normally the globals, one name after the other.
-/

namespace Lox

namespace NativeFunction

/-- An argument by its number, from 0 on, or from -1 on if they are counted from the last one. -/
def argument? (args : List Value) (i : Int) : Option Value :=
  if 0 ≤ i then args[i.toNat]? else args.reverse[(-i - 1).toNat]?

theorem mem_of_argument? {args : List Value} {i : Int} {v : Value}
    (h : argument? args i = some v) : v ∈ args := by
  unfold argument? at h
  split at h
  · exact List.mem_of_getElem? h
  · exact List.mem_reverse.1 (List.mem_of_getElem? h)

/-- A native that hands back one of its arguments. -/
def argument (name : String) (arity : Int) (doc : String) (i : Int) : NativeFunction where
  name := name
  arity := arity
  doc := doc
  apply args := (argument? args i).getD .nil
  apply_known args := by
    cases h : argument? args i with
    | none => exact .inr rfl
    | some v => exact .inl (by simpa using mem_of_argument? h)

/-- A native that hands back the same value whatever its arguments are. -/
def constant (name : String) (arity : Int) (doc : String) (v : Value) (plain : v.isPlain) :
    NativeFunction where
  name := name
  arity := arity
  doc := doc
  apply _ := v
  apply_known _ := .inr plain

/-- The clock, at a given reading. -/
def clock (reading : Float) : NativeFunction :=
  constant "clock" 0 "Seconds since the epoch, as a number." (.number reading) rfl

end NativeFunction

/-- The natives a host offers, by name. -/
structure NativeRegistry where
  functions : Std.ExtTreeMap String NativeFunction := ∅

namespace NativeRegistry

/-- Adds a native; an older one of the same name is replaced. -/
def register (r : NativeRegistry) (n : NativeFunction) : NativeRegistry :=
  ⟨r.functions.insert n.name n⟩

/-- The registry every host starts from. -/
def standard (reading : Float) : NativeRegistry := register {} (.clock reading)

def get? (r : NativeRegistry) (name : String) : Option NativeFunction := r.functions[name]?

/-- The registered names in their order. -/
def names (r : NativeRegistry) : List String := r.functions.keys

/-- What is said of a name that is not registered. -/
def unknownMessage (name : String) : String := "Unknown native function: " ++ name

/-- Binds the named natives in a scope, up to the first name that is not registered. The result
tells that name, if there is one. -/
def install (r : NativeRegistry) (s : ScopeId) : List String → Store → Option String × Store
  | [], st => (none, st)
  | name :: rest, st =>
    match r.get? name with
    | none => (some name, st)
    | some n =>
      let (id, st) := st.newNative n
      r.install s rest (st.define s name (.native id))

end NativeRegistry

end Lox

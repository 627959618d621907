import Std.Data.ExtTreeSet
import Lox.Document
import Lox.Document.Fault

/-!
# Configuration

The settings a host can make, and how they are read from a document. A document that says nothing
gives the defaults.
-/

namespace Lox

/-- The settings of an interpreter. -/
structure Config where
  /-- How many calls may be nested. -/
  maxCallDepth : Nat := 256
  /-- The natives that are bound in the globals. -/
  natives : List String := ["clock"]
  /-- Whether errors reported to the standard error stream name the place. -/
  showSource : Bool := true
  maxCallDepth_pos : 0 < maxCallDepth := by decide
  deriving DecidableEq

/-- The notations a configuration file may be in. -/
inductive FileFormat
  | json
  | yaml
  deriving DecidableEq

/-- Why there is no configuration. -/
inductive ConfigError
  | notFound (name : String)
  /-- The contents of a file cannot be read in its notation. -/
  | unreadable (format : FileFormat) (fault : Document.Fault)
  | unknownKeys (keys : List String)
  | depthNotPositive (depth : Int)
  /-- The document, or one of its entries, is of a shape that holds no settings. -/
  | wrongShape
  deriving DecidableEq

namespace ConfigError

/-- The wording for a depth that is not positive, which names the depth unless it has too many
digits. -/
def depthMessage (depth : Int) : String :=
  if depth.natAbs < Nat.pow 10 Document.maxIntegerDigits then
    "max_call_depth must be positive, got " ++ toString depth
  else
    "Exceeds the limit (" ++ toString Document.maxIntegerDigits
      ++ " digits) for integer string conversion; "
      ++ "use sys.set_int_max_str_digits() to increase the limit"

/-- The wording of an error; shapes are not commented on. -/
def message? : ConfigError → Option String
  | notFound name => some ("config not found: " ++ name)
  | unknownKeys keys => some ("unknown config keys: " ++ ", ".intercalate keys)
  | depthNotPositive depth => some (depthMessage depth)
  | unreadable _ fault => fault.message?
  | wrongShape => none

end ConfigError

namespace Config

/-! ### The stack of the host -/

/-- Stack frames a host sets aside for each nested call. -/
def framesPerCall : Nat := 32

/-- Stack frames a host sets aside for what lies outside of all calls. -/
def framesOutsideCalls : Nat := 1000

/-- A host counts stack frames in signed words of 32 bits. -/
def maxFrames : Nat := Nat.pow 2 31 - 1

/-- Whether a host can set aside the stack that the nested calls may need. -/
def fitsStack (c : Config) : Bool :=
  decide (c.maxCallDepth * framesPerCall + framesOutsideCalls ≤ maxFrames)

/-! ### Settings in documents -/

def maxCallDepthKey : String := "max_call_depth"

def nativesKey : String := "natives"

def showSourceKey : String := "show_source_in_errors"

def knownKeys : List String := [maxCallDepthKey, nativesKey, showSourceKey]

/-- The keys that no setting has, each once, in their order. -/
def unknownKeys (keys : List String) : List String :=
  (Std.ExtTreeSet.ofList (keys.filter (· ∉ knownKeys))).toList

/-- The keys of a document: those of a mapping, the items of a list, the characters of a string. -/
def keys? : Document → Option (List String)
  | .mapping entries => Document.strings? (entries.map (·.1))
  | .sequence items => Document.strings? items
  | .string s => some (s.toList.map Char.toString)
  | _ => none

/-- The depth an entry sets. -/
def depthOf : Option Document → Except ConfigError Int
  | none => .ok 256
  | some (.integer i) => .ok i
  | some _ => .error .wrongShape

/-- The natives an entry names. -/
def nativesOf : Option Document → Except ConfigError (List String)
  | none => .ok ["clock"]
  | some (.sequence items) =>
    match Document.strings? items with
    | some names => .ok names
    | none => .error .wrongShape
  | some _ => .error .wrongShape

/-- The switch an entry sets. -/
def showSourceOf : Option Document → Except ConfigError Bool
  | none => .ok true
  | some (.bool b) => .ok b
  | some _ => .error .wrongShape

/-- The settings in the entries of a mapping whose keys are all known. -/
def ofEntries (entries : List (Document × Document)) : Except ConfigError Config := do
  let depth ← depthOf (Document.lookup? maxCallDepthKey entries)
  let natives ← nativesOf (Document.lookup? nativesKey entries)
  let showSource ← showSourceOf (Document.lookup? showSourceKey entries)
  if h : 0 < depth then
    return { maxCallDepth := depth.toNat, natives, showSource, maxCallDepth_pos := by omega }
  else
    throw (.depthNotPositive depth)

/-- Reads a document. Keys that are not known are complained about before anything else. -/
def ofDocument (d : Document) : Except ConfigError Config :=
  match keys? d with
  | none => .error .wrongShape
  | some keys =>
    if unknownKeys keys ≠ [] then .error (.unknownKeys (unknownKeys keys))
    else match d with
      | .mapping entries => ofEntries entries
      | _ => .error .wrongShape

/-- Reads the document of a file, where one that says nothing is as good as an empty mapping. -/
def ofFileDocument (d : Document) : Except ConfigError Config :=
  if d.isVoid then .ok {} else ofDocument d

/-- The document of a configuration. -/
def toDocument (c : Config) : Document :=
  .mapping
    [(.string maxCallDepthKey, .integer c.maxCallDepth),
     (.string nativesKey, .sequence (c.natives.map .string)),
     (.string showSourceKey, .bool c.showSource)]

/-- Whether a configuration is read back from its document. -/
def readsBack (c : Config) : Bool :=
  match ofDocument c.toDocument with
  | .ok c' => c' = c
  | .error _ => false

end Config

end Lox

/-!
# Documents

Structured data as it is read from a configuration file, whatever notation it was written in.
-/

namespace Lox

/-- A data document. The entries of a mapping keep their order; of two with one key the last
counts. -/
inductive Document
  | null
  | bool (value : Bool)
  | integer (value : Int)
  | real (value : Float)
  | string (value : String)
  /-- A day, or a time on a day, as it is written. -/
  | moment (text : String)
  | sequence (items : List Document)
  | mapping (entries : List (Document × Document))
  deriving Inhabited

namespace Document

/-- Documents that say nothing: null, false, zero, and everything empty. -/
def isVoid : Document → Bool
  | null => true
  | bool b => !b
  | integer i => i == 0
  | real x => x == 0
  | string s => s.isEmpty
  | moment _ => false
  | sequence items => items.isEmpty
  | mapping entries => entries.isEmpty

def asString? : Document → Option String
  | string s => some s
  | _ => none

/-- The strings of a list of documents, if all of them are strings. -/
def strings? (items : List Document) : Option (List String) := items.mapM asString?

/-- The last value a list of entries gives to a key. -/
def lookup? (key : String) : List (Document × Document) → Option Document
  | [] => none
  | (k, v) :: rest =>
    match lookup? key rest with
    | some last => some last
    | none => if k.asString? = some key then some v else none

end Document

end Lox

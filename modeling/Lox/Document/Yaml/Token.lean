import Lox.Document.Fault

/-!
# Tokens

What the text of a YAML document consists of. Indentation shows in tokens of its own, which open and
close block lists and block mappings.
-/

namespace Lox.Document.Yaml

/-- A tag as it is written: a handle that stands for the start of the tag, and the rest. Without a
handle the tag is written out. -/
structure TagName where
  handle? : Option String
  suffix : String
  deriving DecidableEq

/-- What is said about a document before it starts. -/
inductive Directive
  | version (major : Nat)
  /-- A handle for tags that start in the same way. -/
  | handle (handle start : String)
  | other
  deriving DecidableEq

inductive Token
  | directive (directive : Directive)
  | documentStart
  | documentEnd
  | blockSequenceStart
  | blockMappingStart
  | blockEnd
  | flowSequenceStart
  | flowSequenceEnd
  | flowMappingStart
  | flowMappingEnd
  /-- The dash before an item of a block list. -/
  | blockEntry
  /-- The comma inside brackets. -/
  | flowEntry
  /-- What comes next is a key. -/
  | key
  /-- What comes next is the value of a key. -/
  | value
  | alias (name : String)
  | anchor (name : String)
  | tag (name : TagName)
  | scalar (text : String) (plain : Bool)
  deriving DecidableEq

end Lox.Document.Yaml

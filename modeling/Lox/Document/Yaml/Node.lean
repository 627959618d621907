import Lox.Document.Yaml.Tag

/-!
# Nodes

The tree a text is made of, and the document it stands for. Two rules are about keys: the entries
that a merge key stands for are put in front of a mapping's own, where they give way to these, and
nothing but a scalar can be a key.
-/

namespace Lox.Document.Yaml

inductive Node
  | scalar (tag : Tag) (text : String)
  | sequence (tag : Tag) (items : List Node)
  | mapping (tag : Tag) (entries : List (Node × Node))

namespace Node

/-! ### Building -/

/-- The scalar that stands where a node is left out. -/
def absent : Node := .scalar .null ""

/-- Whether a key stands for the entries of other mappings. -/
def isMerge : Node → Bool
  | scalar tag _ => tag = .merge
  | _ => false

/-- A node as a key, where the sign for a main value is a string like others. -/
def asKey : Node → Node
  | scalar .main text => scalar .string text
  | node => node

/-- The entries of a node that has any. -/
def entries? : Node → Option (List (Node × Node))
  | mapping _ entries => some entries
  | _ => none

/-- The entries that the value of a merge key stands for: those of a mapping, or of the mappings of
a list, where the first mapping comes last. -/
def mergedEntries? : Node → Option (List (Node × Node))
  | mapping _ entries => some entries
  | sequence _ items => (items.mapM entries?).map fun lists => lists.reverse.flatten
  | scalar .. => none

/-- A mapping of the given entries. A merge key whose value has no entries is left as it is. -/
def ofEntries (tag : Tag) (entries : List (Node × Node)) : Node :=
  let merged := (entries.filter (·.1.isMerge)).flatMap fun (k, v) =>
    (mergedEntries? v).getD [(k, v)]
  let own := (entries.filter (!·.1.isMerge)).map fun (k, v) => (k.asKey, v)
  .mapping tag (merged ++ own)

/-! ### Reading -/

/-- The fault of a document, and how deep it lies. -/
structure DeepFault where
  depth : Nat
  fault : Fault

/-- Puts two parts of a document together. Of two faults the one that lies less deep counts, and of
two equally deep ones the first. -/
def join {α β γ : Type} (f : α → β → γ) :
    Except DeepFault α → Except DeepFault β → Except DeepFault γ
  | .ok a, .ok b => .ok (f a b)
  | .error e, .ok _ => .error e
  | .ok _, .error e => .error e
  | .error e, .error e' => .error (if e'.depth < e.depth then e' else e)

/-- Whether a node can be a key. -/
def isKey : Node → Bool
  | scalar .. => true
  | _ => false

mutual

/-- The document a node at some depth stands for. The tag of a list or a mapping tells what its
items or entries are for. -/
def readAt (depth : Nat) : Node → Except DeepFault Document
  | scalar tag text => (tag.read text).mapError (⟨depth, ·⟩)
  | sequence tag items =>
    if tag = .sequence then (readItems (depth + 1) items).map .sequence
    else .error ⟨depth, .malformed⟩
  | mapping tag entries =>
    match tag with
    | .mapping => (readEntries (depth + 1) entries).map .mapping
    | .set => (readEntries (depth + 1) entries).map fun es => .sequence (es.map (·.1))
    | _ => .error ⟨depth, .malformed⟩

/-- The documents that nodes stand for. -/
def readItems (depth : Nat) : List Node → Except DeepFault (List Document)
  | [] => .ok []
  | item :: items => join List.cons (readAt depth item) (readItems depth items)

/-- The documents that keys and values stand for. -/
def readEntries (depth : Nat) :
    List (Node × Node) → Except DeepFault (List (Document × Document))
  | [] => .ok []
  | (k, v) :: entries =>
    let key := if k.isKey then readAt depth k else .error ⟨depth, .malformed⟩
    join List.cons (join Prod.mk key (readAt depth v)) (readEntries depth entries)

end

/-- The document a node stands for. -/
def read (node : Node) : Except Fault Document := (node.readAt 0).mapError (·.fault)

end Node

end Lox.Document.Yaml

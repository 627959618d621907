import Lox.Document.Yaml.Node
import Lox.Document.Yaml.Token

/-!
# Grammar

How tokens make up a document. Inside brackets there are only scalars and brackets; the value of a
key may be a block list that is not indented. Where a node is left out, null stands.
-/

namespace Lox.Document.Yaml

/-- What is known while the tokens of a document are read. -/
structure Progress where
  tokens : List Token
  /-- The nodes with an anchor, the last one first. -/
  anchors : List (String × Node) := []
  /-- What the handles of tags stand for. -/
  handles : List (String × String)

/-- Reads some of the tokens. -/
abbrev Parse := StateT Progress (Except Fault)

namespace Parse

/-- What handles stand for if nothing else is said. -/
def standardHandles : List (String × String) := [("!", "!"), ("!!", Tag.standardStart)]

def malformed {α : Type} : Parse α := throw .malformed

/-- The token that comes next. -/
def peek? : Parse (Option Token) := return (← get).tokens.head?

/-- Goes on to the token after the next one. -/
def advance : Parse Unit := modify fun p => { p with tokens := p.tokens.tail }

/-- Whether one of some tokens comes next. -/
def isNext (ts : List Token) : Parse Bool := return (← peek?).any ts.contains

/-- Goes on after a token, if it comes next. -/
def accept (t : Token) : Parse Bool := do
  if (← peek?) = some t then
    advance
    return true
  else return false

/-- Goes on after a token that has to come next. -/
def expect (t : Token) : Parse Unit := do
  if !(← accept t) then malformed

/-! ### Properties of nodes -/

/-- A tag as it is written, if one comes next. -/
def tag? : Parse (Option TagName) := do
  match ← peek? with
  | some (.tag name) =>
    advance
    return some name
  | _ => return none

/-- The name of an anchor, if one comes next. -/
def anchor? : Parse (Option String) := do
  match ← peek? with
  | some (.anchor name) =>
    advance
    return some name
  | _ => return none

/-- The anchor and the tag of a node, which may come in either order. -/
def properties : Parse (Option String × Option TagName) := do
  match ← anchor? with
  | some name => return (some name, ← tag?)
  | none =>
    match ← tag? with
    | some tag => return (← anchor?, some tag)
    | none => return (none, none)

/-- The name of a tag, with what its handle stands for. -/
def fullName (t : TagName) : Parse String := do
  match t.handle? with
  | none => return t.suffix
  | some handle =>
    match (← get).handles.lookup handle with
    | some start => return start ++ t.suffix
    | none => malformed

/-- A mark in place of a tag, which says that there is none. -/
def noTag : String := "!"

/-- The tag of a scalar. Only a plain one, or one that is marked, is told by its form. -/
def scalarTag (tag? : Option String) (plain : Bool) (text : String) : Tag :=
  match tag? with
  | none => if plain then Tag.ofPlain text else .string
  | some name => if name = noTag then Tag.ofPlain text else Tag.ofName name

/-- The tag of a list or a mapping. -/
def collectionTag (tag? : Option String) (untagged : Tag) : Tag :=
  match tag? with
  | none => untagged
  | some name => if name = noTag then untagged else Tag.ofName name

/-- Gives a node the name of an anchor, if there is one. -/
def name (anchor? : Option String) (node : Node) : Parse Unit :=
  match anchor? with
  | none => return ()
  | some name => modify fun p => { p with anchors := (name, node) :: p.anchors }

/-- The node of an anchor. -/
def named (name : String) : Parse Node := do
  match (← get).anchors.lookup name with
  | some node => return node
  | none => malformed

/-- An anchor that no other node has. -/
def checkAnchor (anchor? : Option String) : Parse Unit := do
  match anchor? with
  | none => return ()
  | some name => if ((← get).anchors.lookup name).isSome then malformed

/-! ### Nodes -/

/-- What ends an item of a block list that is not indented. -/
def afterUnindentedItem : List Token := [.blockEntry, .key, .value, .blockEnd]

/-- What ends a key or a value of a block mapping. -/
def afterBlockSide : List Token := [.key, .value, .blockEnd]

/-- Where nodes of a kind may stand. -/
structure Place where
  /-- Whether blocks are known here. -/
  block : Bool
  /-- Whether a block list need not be indented. -/
  unindentedList : Bool

def inBlock : Place := ⟨true, false⟩

def inBlockMapping : Place := ⟨true, true⟩

def inBrackets : Place := ⟨false, false⟩

mutual

/-- The node that comes next. While a list or a mapping is read its anchor stands for an empty
one. -/
def node : Nat → Place → Parse Node
  | 0, _ => malformed
  | n + 1, place => do
    match ← peek? with
    | some (.alias name) =>
      advance
      named name
    | _ =>
      let (anchor?, tagName?) ← properties
      let tag? ← tagName?.mapM fullName
      checkAnchor anchor?
      let sequence (items : Parse (List Node)) : Parse Node := do
        let tag := collectionTag tag? .sequence
        name anchor? (.sequence tag [])
        return .sequence tag (← items)
      let mapping (entries : Parse (List (Node × Node))) : Parse Node := do
        let tag := collectionTag tag? .mapping
        name anchor? (.mapping tag [])
        return .ofEntries tag (← entries)
      let result ← match ← peek? with
        | some (.scalar text plain) =>
          advance
          pure (.scalar (scalarTag tag? plain text) text)
        | some .flowSequenceStart =>
          advance
          sequence (flowItems n true)
        | some .flowMappingStart =>
          advance
          mapping (flowEntries n true)
        | next =>
          if place.unindentedList ∧ next = some .blockEntry then sequence (unindentedItems n)
          else if place.block ∧ next = some .blockSequenceStart then
            advance
            sequence (blockItems n)
          else if place.block ∧ next = some .blockMappingStart then
            advance
            mapping (blockEntries n)
          else if anchor?.isSome || tag?.isSome then pure (.scalar (scalarTag tag? true "") "")
          else malformed
      name anchor? result
      return result

/-- A node, unless one of some tokens shows that it is left out. -/
def optionalNode : Nat → Place → List Token → Parse Node
  | 0, _, _ => malformed
  | n + 1, place, after => do
    if ← isNext after then return .absent else node n place

/-- The value after a colon; without a colon it is left out. -/
def optionalValue : Nat → Place → List Token → Parse Node
  | 0, _, _ => malformed
  | n + 1, place, after => do
    if ← accept .value then optionalNode n place after else return .absent

/-- The items of a block list, up to its end. -/
def blockItems : Nat → Parse (List Node)
  | 0 => malformed
  | n + 1 => do
    if ← accept .blockEntry then
      let item ← optionalNode n inBlock [.blockEntry, .blockEnd]
      return item :: (← blockItems n)
    else
      expect .blockEnd
      return []

/-- The items of a block list that is not indented. -/
def unindentedItems : Nat → Parse (List Node)
  | 0 => malformed
  | n + 1 => do
    if ← accept .blockEntry then
      let item ← optionalNode n inBlock afterUnindentedItem
      return item :: (← unindentedItems n)
    else return []

/-- The entries of a block mapping, up to its end. -/
def blockEntries : Nat → Parse (List (Node × Node))
  | 0 => malformed
  | n + 1 => do
    if ← accept .key then
      let key ← optionalNode n inBlockMapping afterBlockSide
      let value ← optionalValue n inBlockMapping afterBlockSide
      return (key, value) :: (← blockEntries n)
    else
      expect .blockEnd
      return []

/-- The items up to a closing bracket. A comma may stand after the last; a key and its value make a
mapping of their own. -/
def flowItems : Nat → Bool → Parse (List Node)
  | 0, _ => malformed
  | n + 1, first => do
    if ← accept .flowSequenceEnd then return []
    else
      if !first then expect .flowEntry
      if ← accept .key then
        let after : List Token := [.flowEntry, .flowSequenceEnd]
        let key ← optionalNode n inBrackets (.value :: after)
        let value ← optionalValue n inBrackets after
        return .ofEntries .mapping [(key, value)] :: (← flowItems n false)
      else if ← accept .flowSequenceEnd then return []
      else
        let item ← node n inBrackets
        return item :: (← flowItems n false)

/-- The entries up to a closing brace. A comma may stand after the last. -/
def flowEntries : Nat → Bool → Parse (List (Node × Node))
  | 0, _ => malformed
  | n + 1, first => do
    if ← accept .flowMappingEnd then return []
    else
      if !first then expect .flowEntry
      if ← accept .key then
        let after : List Token := [.flowEntry, .flowMappingEnd]
        let key ← optionalNode n inBrackets (.value :: after)
        let value ← optionalValue n inBrackets after
        return (key, value) :: (← flowEntries n false)
      else if ← accept .flowMappingEnd then return []
      else
        let key ← node n inBrackets
        return (key, .absent) :: (← flowEntries n false)

end

/-! ### Documents -/

/-- What the directives in front of a document say: a version and handles, each at most once. -/
def directives : List Token → Except Fault (Option Nat × List (String × String) × List Token)
  | .directive d :: ts => do
    let (version?, handles, rest) ← directives ts
    match d with
    | .version major =>
      if version?.isSome ∨ major ≠ 1 then throw .malformed
      else return (some major, handles, rest)
    | .handle handle start =>
      if (handles.lookup handle).isSome then throw .malformed
      else return (version?, (handle, start) :: handles, rest)
    | .other => return (version?, handles, rest)
  | ts => return (none, [], ts)

/-- What ends a document. -/
def isBoundary : Token → Bool
  | .directive _ => true
  | .documentStart => true
  | .documentEnd => true
  | _ => false

/-- The node of the only document there is, if it has one. Of three steps into the tokens one at
least reads a token. -/
def document? (tokens : List Token) : Except Fault (Option Node) := do
  let fuel := 3 * tokens.length + 3
  let explicit := match tokens with
    | .directive _ :: _ => true
    | .documentStart :: _ => true
    | _ => false
  let (content, handles, ts) ←
    if tokens.isEmpty then pure (pure none, [], tokens)
    else if explicit then do
      let (_, handles, ts) ← directives tokens
      match ts with
      | .documentStart :: ts =>
        let isEmpty := ts.head?.all isBoundary
        pure ((if isEmpty then pure (some .absent) else some <$> node fuel inBlock), handles, ts)
      | _ => throw .malformed
    else pure (some <$> node fuel inBlock, [], tokens)
  let (root?, left) ← StateT.run content { tokens := ts, handles := handles ++ standardHandles }
  if left.tokens.all (· = .documentEnd) then return root? else throw .malformed

end Parse

end Lox.Document.Yaml

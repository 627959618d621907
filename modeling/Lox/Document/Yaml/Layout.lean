import Lox.Document.Yaml.BlockText
import Lox.Document.Yaml.Plain
import Lox.Document.Yaml.Property
import Lox.Document.Yaml.Quotation

/-!
# Layout

How a text is cut into tokens. Two things are found out on the way. Indentation: a line that is
indented deeper than the one before may open a block, and one that is indented less closes blocks.
Keys: what stands in front of a colon is a key, which is known only when the colon is reached, so
that every token a key may start with is remembered until then.
-/

namespace Lox.Document.Yaml

/-- The start of what may turn out to be a key. -/
structure PendingKey where
  /-- How many tokens come before it. -/
  number : Nat
  /-- Whether nothing but a key can stand there. -/
  required : Bool
  start : Cursor

/-- No more characters than this lie between the start of a key and its colon. -/
def maxKeyLength : Nat := 1024

/-- What is known of a text up to a place in it. -/
structure Layout where
  cursor : Cursor
  /-- The tokens so far, the last one first. -/
  reversed : List Token := []
  /-- The column of the innermost open block; -1 outside of all blocks. -/
  indent : Int := -1
  outerIndents : List Int := []
  /-- Whether a key, or an entry of a block, may start here. -/
  keyAllowed : Bool := true
  /-- The key that is pending inside the innermost brackets. -/
  pending? : Option PendingKey := none
  /-- The keys that are pending outside of each open bracket. -/
  outerPending : List (Option PendingKey) := []

namespace Layout

def inBrackets (l : Layout) : Bool := !l.outerPending.isEmpty

/-- Adds a token at the end. -/
def push (t : Token) (l : Layout) : Layout := { l with reversed := t :: l.reversed }

/-- Adds a token behind the first ones. -/
def insert (number : Nat) (t : Token) (l : Layout) : Layout :=
  let kept := l.reversed.length - number
  { l with reversed := l.reversed.take kept ++ t :: l.reversed.drop kept }

/-! ### Indentation -/

/-- How many blocks of the given columns end at a column, the column of the block that does not,
and those outside of it. -/
def endedBlocks (column : Int) : Int → List Int → Nat × Int × List Int
  | indent, [] => (0, indent, [])
  | indent, outer :: rest =>
    if column < indent then
      let (count, left) := endedBlocks column outer rest
      (count + 1, left)
    else (0, indent, outer :: rest)

/-- Closes the blocks that are indented deeper than a column. Brackets take no notice of
indentation. -/
def closeBlocks (column : Int) (l : Layout) : Layout :=
  if l.inBrackets then l
  else
    let (count, indent, outerIndents) := endedBlocks column l.indent l.outerIndents
    { l with
      reversed := List.replicate count .blockEnd ++ l.reversed, indent, outerIndents }

/-- Opens a block at a column, with a token behind the first ones, unless there is one already. -/
def openBlock (column number : Nat) (t : Token) (l : Layout) : Layout :=
  if l.indent < column then
    { l.insert number t with indent := column, outerIndents := l.indent :: l.outerIndents }
  else l

/-- Opens a block where the next token is, which has to be a place where keys are allowed. Inside
brackets there are no blocks. -/
def openBlockHere (t : Token) (l : Layout) : Except Fault Layout :=
  if l.inBrackets then .ok l
  else if l.keyAllowed then .ok (l.openBlock l.cursor.column l.reversed.length t)
  else .error .malformed

/-! ### Keys -/

/-- Forgets the pending key, if it is one that can be spared. -/
def dropPending (l : Layout) : Except Fault Layout :=
  if l.pending?.any (·.required) then .error .malformed else .ok { l with pending? := none }

/-- Whether a key that started at a place can no longer end at another. -/
def isStale (here : Cursor) (k : PendingKey) : Bool :=
  k.start.line != here.line || here.index - k.start.index > maxKeyLength

/-- A pending key, unless it can no longer be one. -/
def refresh (here : Cursor) (k? : Option PendingKey) : Except Fault (Option PendingKey) :=
  match k? with
  | none => .ok none
  | some k =>
    if !isStale here k then .ok (some k)
    else if k.required then .error .malformed
    else .ok none

/-- Forgets the keys that are too long or go on over more than one line. -/
def dropStale (l : Layout) : Except Fault Layout := do
  let pending? ← refresh l.cursor l.pending?
  let outerPending ← l.outerPending.mapM (refresh l.cursor)
  return { l with pending?, outerPending }

/-- Remembers that a key may start here. Where the entries of a block start it has to. -/
def savePending (l : Layout) : Except Fault Layout := do
  if l.keyAllowed then
    let required := !l.inBrackets && l.indent == l.cursor.column
    let l ← l.dropPending
    return { l with pending? := some ⟨l.reversed.length, required, l.cursor⟩ }
  else return l

/-! ### Tokens -/

/-- Skips blanks, comments and breaks. Outside brackets every new line may start with a key. -/
def skipGap : Nat → Layout → Layout
  | 0, l => l
  | n + 1, l =>
    let c := l.cursor.skipSpaces.skipComment
    if isBreak c.peek then
      skipGap n { l with cursor := c.takeBreak.2, keyAllowed := l.keyAllowed || !l.inBrackets }
    else { l with cursor := c }

/-- A token that consists of some characters. -/
def sign (length : Nat) (t : Token) (l : Layout) : Layout :=
  { l.push t with cursor := l.cursor.skip length }

/-- A directive, or what starts or ends a document: it stands outside of all blocks. -/
def betweenDocuments (l : Layout) : Except Fault Layout := do
  let l ← (l.closeBlocks (-1)).dropPending
  return { l with keyAllowed := false }

def openBracket (t : Token) (l : Layout) : Except Fault Layout := do
  let l ← l.savePending
  return { l.sign 1 t with
    pending? := none, outerPending := l.pending? :: l.outerPending, keyAllowed := true }

/-- A closing bracket, which there has to be an open one for. -/
def closeBracket (t : Token) (l : Layout) : Except Fault Layout := do
  let l ← l.dropPending
  match l.outerPending with
  | [] => throw .malformed
  | pending? :: outerPending =>
    return { l.sign 1 t with pending?, outerPending, keyAllowed := false }

def comma (l : Layout) : Except Fault Layout := do
  let l ← l.dropPending
  return { l.sign 1 .flowEntry with keyAllowed := true }

def dash (l : Layout) : Except Fault Layout := do
  let l ← l.openBlockHere .blockSequenceStart
  let l ← l.dropPending
  return { l.sign 1 .blockEntry with keyAllowed := true }

/-- A question mark, which announces a key. -/
def keySign (l : Layout) : Except Fault Layout := do
  let l ← l.openBlockHere .blockMappingStart
  let l ← l.dropPending
  return { l.sign 1 .key with keyAllowed := !l.inBrackets }

/-- A colon. It makes the pending key one; without a pending key it belongs to one that was
announced, or to none. -/
def colon (l : Layout) : Except Fault Layout := do
  match l.pending? with
  | some k =>
    let l := l.insert k.number .key
    let l := if l.inBrackets then l else l.openBlock k.start.column k.number .blockMappingStart
    return { l.sign 1 .value with pending? := none, keyAllowed := false }
  | none =>
    let l ← l.openBlockHere .blockMappingStart
    return { l.sign 1 .value with keyAllowed := !l.inBrackets }

/-- A token that may start a key, which ends at a cursor. -/
def keyStart (t : Token) (after : Cursor) (l : Layout) : Except Fault Layout := do
  let l ← l.savePending
  return { l.push t with cursor := after, keyAllowed := false }

/-- A plain scalar. If its line ends with it, a key may start on the next one. -/
def plain (fuel : Nat) (l : Layout) : Except Fault Layout := do
  let minColumn := (l.indent + 1).toNat
  let (text, endsLine, after) := plainText l.inBrackets minColumn fuel l.cursor
  let l ← l.keyStart (.scalar (String.ofList text) true) after
  return { l with keyAllowed := endsLine }

/-- A scalar in quotes. -/
def quotation (fuel : Nat) (l : Layout) : Except Fault Layout := do
  let (text, after) ← quotedText fuel l.cursor
  l.keyStart (.scalar (String.ofList text) false) after

/-- A block scalar, which ends with a line. -/
def block (fuel : Nat) (l : Layout) : Except Fault Layout := do
  let l ← l.dropPending
  let minColumn := max 1 (l.indent + 1).toNat
  let (text, after) ← blockText minColumn fuel l.cursor
  return { l.push (.scalar (String.ofList text) false) with cursor := after, keyAllowed := true }

/-- The token at the cursor, which is neither a blank nor the end of the text. -/
def next (fuel : Nat) (l : Layout) : Except Fault Layout := do
  let c := l.cursor
  if c.peek = '%' ∧ c.column = 0 then
    let l ← l.betweenDocuments
    let (d, after) ← directive fuel c
    return { l.push (.directive d) with cursor := after }
  else if c.atMark '-' then return (← l.betweenDocuments).sign 3 .documentStart
  else if c.atMark '.' then return (← l.betweenDocuments).sign 3 .documentEnd
  else
    match c.peek with
    | '[' => l.openBracket .flowSequenceStart
    | '\x7b' => l.openBracket .flowMappingStart
    | ']' => l.closeBracket .flowSequenceEnd
    | '\x7d' => l.closeBracket .flowMappingEnd
    | ',' => l.comma
    | '*' =>
      let (name, after) ← anchorName c.next
      l.keyStart (.alias name) after
    | '&' =>
      let (name, after) ← anchorName c.next
      l.keyStart (.anchor name) after
    | '!' =>
      let (name, after) ← tagName fuel c
      l.keyStart (.tag name) after
    | '\'' => l.quotation fuel
    | '"' => l.quotation fuel
    | ch =>
      let signStands := l.inBrackets || endsWord (c.peekAt 1)
      if ch = '-' ∧ endsWord (c.peekAt 1) then l.dash
      else if ch = '?' ∧ signStands then l.keySign
      else if ch = ':' ∧ signStands then l.colon
      else if (ch = '|' ∨ ch = '>') ∧ !l.inBrackets then l.block fuel
      else if startsPlain l.inBrackets c then l.plain fuel
      else throw .malformed

/-- The tokens from here on. -/
def tokens (fuel : Nat) : Nat → Layout → Except Fault (List Token)
  | 0, _ => .error .malformed
  | n + 1, l => do
    let l ← (l.skipGap fuel).dropStale
    let l := l.closeBlocks l.cursor.column
    if l.cursor.peek = endOfText then
      let l ← (l.closeBlocks (-1)).dropPending
      return l.reversed.reverse
    else
      let l ← l.next fuel
      tokens fuel n l

end Layout

/-- The tokens of a text whose line ends are all breaks. Every token has a character of its own, so
the length of the text bounds their number. -/
def tokens (text : List Char) : Except Fault (List Token) :=
  let start : Cursor := ⟨text, 0, 0, 0⟩
  let start := if start.peek = byteOrderMark then start.next else start
  let fuel := text.length + 1
  Layout.tokens fuel fuel { cursor := start }

end Lox.Document.Yaml

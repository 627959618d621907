import Lox.Document.Yaml.Cursor

/-!
# Block scalars

Texts of whole lines, under a header that tells whether the lines are kept apart or folded, and what
becomes of the breaks at the end.
-/

namespace Lox.Document.Yaml

/-- What becomes of the breaks at the end of a block scalar. -/
inductive Chomping
  /-- One break is kept. -/
  | clip
  | strip
  | keep
  deriving DecidableEq

/-- The sign for what becomes of the last breaks. -/
def chomping? (c : Char) : Option Chomping :=
  if c = '+' then some .keep else if c = '-' then some .strip else none

/-- The digit that tells how far a block scalar is indented beyond what it belongs to. -/
def indentation? (c : Char) : Option Nat :=
  if c.isDigit then some (c.toNat - '0'.toNat) else none

/-- A sign in a header, which may be left out. -/
def sign {α : Type} (meaning? : Char → Option α) (c : Cursor) : Option α × Cursor :=
  match meaning? c.peek with
  | some a => (some a, c.next)
  | none => (none, c)

/-- The header of a block scalar, whose two signs may come in either order, and the place after its
line. -/
def blockHeader (c : Cursor) : Except Fault (Chomping × Option Nat × Cursor) := do
  let (before, c) := sign chomping? c
  let (indentation, c) := sign indentation? c
  let (after, c) := if before.isSome then (none, c) else sign chomping? c
  if indentation = some 0 ∨ ¬(c.peek = ' ' ∨ endsLine c.peek) then throw .malformed
  return ((before.or after).getD .clip, indentation, ← c.nextLine)

/-- The breaks of the empty lines a block scalar starts with, and the column of the deepest place
on them and on the first line that is not empty. -/
def leadingBreaks : Nat → Cursor → List Char × Nat × Cursor
  | 0, c => ([], 0, c)
  | n + 1, c =>
    let (spaces, c) := c.span (· = ' ')
    let deepest := if spaces.isEmpty then 0 else c.column
    if isBreak c.peek then
      let (first, c) := c.takeBreak
      let (more, deepestBelow, c) := leadingBreaks n c
      (first ++ more, max deepest deepestBelow, c)
    else ([], deepest, c)

/-- The breaks of the lines that hold nothing beyond a column. -/
def breaksAbove (column : Nat) : Nat → Cursor → List Char × Cursor
  | 0, c => ([], c)
  | n + 1, c =>
    let c := c.skipSpacesTo column
    if isBreak c.peek then
      let (first, c) := c.takeBreak
      let (more, c) := breaksAbove column n c
      (first ++ more, c)
    else ([], c)

/-- The lines of a block scalar. -/
structure BlockLines where
  text : List Char
  /-- The break of the last line. -/
  lastBreak : List Char
  /-- The breaks of the empty lines at the end. -/
  emptyBreaks : List Char
  after : Cursor

/-- What stands between two lines that are apart by a break and empty lines. Of lines that are
folded those are kept apart that start with a blank. -/
def lineJoint (folded blankStart : Bool) (lineBreak emptyBreaks : List Char) : List Char :=
  if folded && lineBreak = ['\n'] && !blankStart then
    if emptyBreaks.isEmpty then [' '] else []
  else lineBreak

/-- The lines from here on that are indented up to a column. The breaks before them are given. -/
def blockLines (folded : Bool) (column : Nat) : Nat → List Char → Cursor → BlockLines
  | 0, breaks, c => ⟨[], [], breaks, c⟩
  | n + 1, breaks, c =>
    let (line, afterLine) := c.span (!endsLine ·)
    let (lastBreak, afterBreak) := afterLine.takeBreak
    let (emptyBreaks, c') := breaksAbove column n afterBreak
    if c'.column = column ∧ c'.peek ≠ endOfText then
      let joint := lineJoint folded (isBlank c.peek || isBlank c'.peek) lastBreak emptyBreaks
      let below := blockLines folded column n emptyBreaks c'
      { below with text := breaks ++ line ++ joint ++ below.text }
    else ⟨breaks ++ line, lastBreak, emptyBreaks, c'⟩

/-- The text of a block scalar. -/
def BlockLines.chomp (lines : BlockLines) : Chomping → List Char
  | .clip => lines.text ++ lines.lastBreak
  | .strip => lines.text
  | .keep => lines.text ++ lines.lastBreak ++ lines.emptyBreaks

/-- The block scalar whose header starts here. It is indented at least up to a column. -/
def blockText (minColumn fuel : Nat) (c : Cursor) : Except Fault (List Char × Cursor) := do
  let folded : Bool := c.peek = '>'
  let (chomping, indentation, c) ← blockHeader c.next
  let (column, breaks, c) := match indentation with
    | none =>
      let (breaks, deepest, c) := leadingBreaks fuel c
      (max minColumn deepest, breaks, c)
    | some deeper =>
      let column := minColumn + deeper - 1
      let (breaks, c) := breaksAbove column fuel c
      (column, breaks, c)
  let lines :=
    if c.column = column ∧ c.peek ≠ endOfText then blockLines folded column fuel breaks c
    else ⟨[], [], breaks, c⟩
  return (lines.chomp chomping, lines.after)

end Lox.Document.Yaml

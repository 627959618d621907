import Lox.Document.Fault

/-!
# Places in a text

A cursor is a place in a text and what follows it. It counts lines and columns, because the place of
a token decides what the token belongs to.
-/

namespace Lox.Document.Yaml

/-! ### Characters -/

/-- What a cursor shows at the end of the text; no text holds this character. -/
def endOfText : Char := '\x00'

/-- Characters that end a line. -/
def isBreak (c : Char) : Bool := c = '\n' || c = '\x85' || c = '\u2028' || c = '\u2029'

def isBlank (c : Char) : Bool := c = ' ' || c = '\t'

/-- The ends of lines and the end of the text. -/
def endsLine (c : Char) : Bool := isBreak c || c = endOfText

/-- What has to follow some indicators for them to count as such. -/
def endsWord (c : Char) : Bool := isBlank c || endsLine c

/-- Characters that may stand in a text. -/
def isPrintable (c : Char) : Bool :=
  isBlank c || isBreak c || (' ' ≤ c && c ≤ '~') || ('\xa0' ≤ c && c ≤ '\ud7ff')
    || ('\ue000' ≤ c && c ≤ '\ufffd') || 0x10000 ≤ c.toNat

/-- Characters that may stand in the names of anchors, handles and directives. -/
def isNameChar (c : Char) : Bool := c.isAlphanum || c = '-' || c = '_'

/-- A mark that may stand at the start of a text, and takes no room. -/
def byteOrderMark : Char := '\ufeff'

/-! ### Cursors -/

/-- A place in a text, by the number of characters, lines and columns before it. -/
structure Cursor where
  rest : List Char
  index : Nat := 0
  line : Nat := 0
  column : Nat := 0
  deriving DecidableEq

namespace Cursor

/-- The character some way ahead. -/
def peekAt (c : Cursor) (ahead : Nat) : Char := c.rest.getD ahead endOfText

/-- The character at a cursor. -/
def peek (c : Cursor) : Char := c.peekAt 0

/-- The place after the character at a cursor. -/
def next (c : Cursor) : Cursor :=
  match c.rest with
  | [] => c
  | ch :: rest =>
    if isBreak ch then ⟨rest, c.index + 1, c.line + 1, 0⟩
    else ⟨rest, c.index + 1, c.line, if ch = byteOrderMark then c.column else c.column + 1⟩

/-- The place some characters further. -/
def skip : Nat → Cursor → Cursor
  | 0, c => c
  | n + 1, c => c.next.skip n

/-- Some characters, and the place after them. -/
def take (n : Nat) (c : Cursor) : List Char × Cursor := (c.rest.take n, c.skip n)

theorem rest_next (c : Cursor) : c.next.rest = c.rest.tail := by
  unfold next
  split
  · next h => simp [h]
  · next h =>
    rw [h]
    split <;> rfl

theorem rest_skip (n : Nat) (c : Cursor) : (c.skip n).rest = c.rest.drop n := by
  induction n generalizing c with
  | zero => rfl
  | succ n ih => rw [skip, ih, rest_next, List.drop_tail]

/-- Taking loses nothing. -/
theorem take_append_rest (n : Nat) (c : Cursor) : (c.take n).1 ++ (c.take n).2.rest = c.rest := by
  simp [take, rest_skip]

/-- The characters up to the first one that is not of a kind, and the place of that one. -/
def span (p : Char → Bool) (c : Cursor) : List Char × Cursor := c.take (c.rest.takeWhile p).length

def skipWhile (p : Char → Bool) (c : Cursor) : Cursor := (c.span p).2

def skipSpaces (c : Cursor) : Cursor := c.skipWhile (· = ' ')

/-- Skips spaces, but not beyond a column. -/
def skipSpacesTo (column : Nat) (c : Cursor) : Cursor :=
  c.skip (min (c.rest.takeWhile (· = ' ')).length (column - c.column))

/-- Skips a comment, up to the end of its line. -/
def skipComment (c : Cursor) : Cursor := if c.peek = '#' then c.skipWhile (!endsLine ·) else c

/-- The break at a cursor as text, and the place after it. Only the separators of lines and
paragraphs are told apart from a new line. -/
def takeBreak (c : Cursor) : List Char × Cursor :=
  if c.peek = '\u2028' ∨ c.peek = '\u2029' then ([c.peek], c.next)
  else if isBreak c.peek then (['\n'], c.next)
  else ([], c)

/-- The place on the next line, if there is nothing left on this one but spaces and a comment. -/
def nextLine (c : Cursor) : Except Fault Cursor :=
  let c := c.skipSpaces.skipComment
  if endsLine c.peek then .ok c.takeBreak.2 else .error .malformed

/-- Whether a line starts here that consists of the mark between documents, or starts with it. -/
def atMark (mark : Char) (c : Cursor) : Bool :=
  c.column = 0 && c.rest.take 3 = [mark, mark, mark] && endsWord (c.peekAt 3)

/-- Whether a document starts or ends here. -/
def atSeparator (c : Cursor) : Bool := c.atMark '-' || c.atMark '.'

end Cursor

/-! ### Folding -/

/-- The breaks of the empty lines from here on, where lines that hold nothing but filling are empty;
they stop where a document does. -/
def emptyLines (isFilling : Char → Bool) : Nat → Cursor → List Char × Cursor
  | 0, c => ([], c)
  | n + 1, c =>
    if c.atSeparator then ([], c)
    else
      let c := c.skipWhile isFilling
      if isBreak c.peek then
        let (first, c) := c.takeBreak
        let (more, c) := emptyLines isFilling n c
        (first ++ more, c)
      else ([], c)

/-- What a break and the empty lines after it stand for: a single new line is a space. -/
def fold (first more : List Char) : List Char :=
  if first ≠ ['\n'] then first ++ more
  else if more.isEmpty then [' ']
  else more

end Lox.Document.Yaml

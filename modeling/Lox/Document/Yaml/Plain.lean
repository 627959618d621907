import Lox.Document.Yaml.Cursor

/-!
# Plain scalars

Texts without quotes. Where one ends depends on whether it stands inside brackets, and on how far
the lines it goes on over are indented.
-/

namespace Lox.Document.Yaml

/-- Characters that are part of the bracket notation. -/
def isBracketSign (c : Char) : Bool :=
  c = ',' || c = '[' || c = ']' || c = '\x7b' || c = '\x7d'

/-- Characters no plain scalar starts with. A dash, a question mark or a colon is none of them if
something follows it directly. -/
def isIndicator (c : Char) : Bool :=
  isBracketSign c
    || ['-', '?', ':', '#', '&', '*', '!', '|', '>', '\'', '"', '%', '@', '\x60'].contains c

/-- Whether a plain scalar starts here. -/
def startsPlain (inBrackets : Bool) (c : Cursor) : Bool :=
  !(endsWord c.peek || isIndicator c.peek)
    || (!endsWord (c.peekAt 1)
      && (c.peek = '-' || (!inBrackets && (c.peek = '?' || c.peek = ':'))))

/-- How many characters of a text belong to the words of one plain scalar without a blank between
them. -/
def plainLength (inBrackets : Bool) : List Char → Nat
  | [] => 0
  | c :: rest =>
    let following := rest.headD endOfText
    let atColon :=
      c = ':' && (endsWord following || (inBrackets && isBracketSign following))
    if endsWord c || atColon || (inBrackets && (isBracketSign c || c = '?')) then 0
    else plainLength inBrackets rest + 1

/-- What is between two words of a plain scalar. -/
structure PlainGap where
  /-- What the gap stands for; nothing, if the scalar ends here. -/
  text : List Char
  endsLine : Bool
  after : Cursor

/-- The blanks or the breaks after a word. A document that starts or ends here ends the scalar. -/
def plainGap (fuel : Nat) (c : Cursor) : PlainGap :=
  let (blanks, c) := c.span (· = ' ')
  if isBreak c.peek then
    let (first, c) := c.takeBreak
    let (more, c) := emptyLines (· = ' ') fuel c
    ⟨if c.atSeparator then [] else fold first more, true, c⟩
  else ⟨blanks, false, c⟩

/-- The rest of a plain scalar after a gap. The result tells also whether the scalar ended with its
line. Outside brackets a line that is not indented enough does not belong to the scalar. -/
def plainAfter (inBrackets : Bool) (minColumn : Nat) :
    Nat → PlainGap → List Char × Bool × Cursor
  | 0, gap => ([], gap.endsLine, gap.after)
  | n + 1, gap =>
    match plainLength inBrackets gap.after.rest with
    | 0 => ([], gap.endsLine, gap.after)
    | length =>
      let (word, c) := gap.after.take length
      let nextGap := plainGap n c
      if nextGap.text.isEmpty || nextGap.after.peek = '#'
          || (!inBrackets && nextGap.after.column < minColumn) then
        (gap.text ++ word, nextGap.endsLine, nextGap.after)
      else
        let (text, endsLine, after) := plainAfter inBrackets minColumn n nextGap
        (gap.text ++ word ++ text, endsLine, after)

/-- The plain scalar that starts here. -/
def plainText (inBrackets : Bool) (minColumn fuel : Nat) (c : Cursor) : List Char × Bool × Cursor :=
  plainAfter inBrackets minColumn fuel ⟨[], false, c⟩

end Lox.Document.Yaml

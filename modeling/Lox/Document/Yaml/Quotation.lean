import Lox.Document.Scan
import Lox.Document.Yaml.Cursor

/-!
# Scalars in quotes

Inside single quotes a quote is written twice; inside double quotes a backslash escapes. Lines are
folded in both.
-/

namespace Lox.Document.Yaml

/-- The code point of an escape that is a single character. -/
def escape? (c : Char) : Option Nat :=
  match c with
  | '0' => some 0x00
  | 'a' => some 0x07
  | 'b' => some 0x08
  | 't' => some 0x09
  | '\t' => some 0x09
  | 'n' => some 0x0a
  | 'v' => some 0x0b
  | 'f' => some 0x0c
  | 'r' => some 0x0d
  | 'e' => some 0x1b
  | ' ' => some 0x20
  | '"' => some 0x22
  | '\\' => some 0x5c
  | '/' => some 0x2f
  | 'N' => some 0x85
  | '_' => some 0xa0
  | 'L' => some 0x2028
  | 'P' => some 0x2029
  | _ => none

/-- How many hexadecimal digits follow an escape that names a character by its number. -/
def escapeDigits? (c : Char) : Option Nat :=
  match c with
  | 'x' => some 2
  | 'u' => some 4
  | 'U' => some 8
  | _ => none

/-- The greatest number of a character. -/
def maxCodePoint : Nat := 0x10ffff

/-- The code point that so many hexadecimal digits name. -/
def numberedPoint (digits : Nat) (c : Cursor) : Except Fault (Nat × Cursor) :=
  let (ds, after) := c.take digits
  match natOfDigits? 16 ds with
  | some code =>
    if ds.length < digits then .error .malformed
    else if maxCodePoint < code then .error (.notACodePoint code)
    else .ok (code, after)
  | none => .error .malformed

/-- The breaks of empty lines. No document starts or ends inside quotes. -/
def quotedBreaks (fuel : Nat) (c : Cursor) : Except Fault (List Char × Cursor) :=
  let (breaks, c) := emptyLines isBlank fuel c
  if c.atSeparator then .error .malformed else .ok (breaks, c)

/-- What the escape after a backslash stands for. An escaped break joins two lines. -/
def escaped (fuel : Nat) (c : Cursor) : Except Fault (List Nat × Cursor) :=
  match escape? c.peek, escapeDigits? c.peek with
  | some code, _ => .ok ([code], c.next)
  | none, some digits => do
    let (code, c) ← numberedPoint digits c.next
    return ([code], c)
  | none, none =>
    if isBreak c.peek then do
      let (breaks, c) ← quotedBreaks fuel c.takeBreak.2
      return (breaks.map Char.toNat, c)
    else .error .malformed

/-- What blanks and breaks between words stand for. -/
def quotedGap (fuel : Nat) (c : Cursor) : Except Fault (List Nat × Cursor) := do
  let (blanks, c) := c.span isBlank
  if c.peek = endOfText then throw .malformed
  else if isBreak c.peek then
    let (first, c) := c.takeBreak
    let (more, c) ← quotedBreaks fuel c
    return ((fold first more).map Char.toNat, c)
  else return (blanks.map Char.toNat, c)

/-- The code points up to the closing quote. -/
def quotedPoints (quote : Char) : Nat → Cursor → Except Fault (List Nat × Cursor)
  | 0, _ => .error .malformed
  | n + 1, c => do
    if c.peek = quote ∧ ¬(quote = '\'' ∧ c.peekAt 1 = '\'') then return ([], c.next)
    else
      let (points, c) ←
        if c.peek = quote then pure ([quote.toNat], c.skip 2)
        else if endsWord c.peek then quotedGap n c
        else if quote = '"' ∧ c.peek = '\\' then escaped n c.next
        else pure ([c.peek.toNat], c.next)
      let (more, c) ← quotedPoints quote n c
      return (points ++ more, c)

/-- The scalar whose opening quote stands here. -/
def quotedText (fuel : Nat) (c : Cursor) : Except Fault (List Char × Cursor) := do
  let (points, c) ← quotedPoints c.peek fuel c.next
  return (charsOfPoints points, c)

end Lox.Document.Yaml

import Lox.Document.Scan

/-!
# JSON

Reading a document in JSON: one value with nothing but blanks around it. Besides the standard, the
numbers `NaN` and `Infinity` are known. The first thing that cannot be read, from the left, is the
fault of the whole text.
-/

namespace Lox.Document.Json

def isBlank (c : Char) : Bool := c = ' ' || c = '\t' || c = '\n' || c = '\r'

def skipBlanks (cs : List Char) : List Char := cs.dropWhile isBlank

/-! ### Strings -/

/-- The code point of an escape that is a single letter. -/
def escape? (c : Char) : Option Nat :=
  match c with
  | '"' => some 0x22
  | '\\' => some 0x5c
  | '/' => some 0x2f
  | 'b' => some 0x08
  | 'f' => some 0x0c
  | 'n' => some 0x0a
  | 'r' => some 0x0d
  | 't' => some 0x09
  | _ => none

/-- The code points up to a closing quote, and what follows it. Control characters have to be
escaped. -/
def points? : List Char → Option (List Nat × List Char)
  | [] => none
  | '"' :: rest => some ([], rest)
  | '\\' :: 'u' :: a :: b :: c :: d :: rest => do
    let p ← natOfDigits? 16 [a, b, c, d]
    let (ps, after) ← points? rest
    return (p :: ps, after)
  | '\\' :: e :: rest => do
    let p ← escape? e
    let (ps, after) ← points? rest
    return (p :: ps, after)
  | c :: rest =>
    if c.toNat < 0x20 then none
    else do
      let (ps, after) ← points? rest
      return (c.toNat :: ps, after)

/-- The text up to a closing quote. -/
def string (cs : List Char) : Except Fault (String × List Char) :=
  match points? cs with
  | some (ps, after) => .ok (String.ofList (charsOfPoints ps), after)
  | none => .error .malformed

/-! ### Words and numbers -/

/-- The words that stand for a value. -/
def words : List (List Char × Document) :=
  [("null".toList, .null), ("true".toList, .bool true), ("false".toList, .bool false),
   ("NaN".toList, .real (0 / 0)), ("Infinity".toList, .real (1 / 0)),
   ("-Infinity".toList, .real (-1 / 0))]

/-- A word at the start of the text, and what follows it. -/
def word? (cs : List Char) : Option (Document × List Char) :=
  (words.find? (·.1.isPrefixOf cs)).map fun (w, d) => (d, cs.drop w.length)

/-- The digits of an integer: a single zero, or digits that start with another one. -/
def wholePart (cs : List Char) : Except Fault (List Char × List Char) :=
  match cs with
  | '0' :: rest => .ok (['0'], rest)
  | _ =>
    match spanDigits cs with
    | ([], _) => .error .malformed
    | (ds, rest) => .ok (ds, rest)

/-- The digits after a point, if the point is followed by one at least. -/
def fractionPart (cs : List Char) : List Char × List Char :=
  match cs with
  | '.' :: rest =>
    match spanDigits rest with
    | ([], _) => ([], cs)
    | (ds, after) => (ds, after)
  | _ => ([], cs)

/-- A number; without a fraction and an exponent it is an integer. -/
def number (cs : List Char) : Except Fault (Document × List Char) := do
  let (negative, cs) := match cs with
    | '-' :: rest => (true, rest)
    | _ => (false, cs)
  let (whole, cs) ← wholePart cs
  let (fraction, cs) := fractionPart cs
  let (exponent?, cs) := exponentPart? cs
  if fraction.isEmpty && exponent?.isNone then
    let n ← natOfDigits 10 whole
    return (.integer (signed negative n), cs)
  else
    let exponent := exponent?.getD 0 - fraction.length
    return (.real (floatOfDecimal negative (whole ++ fraction) exponent), cs)

/-! ### Values -/

mutual

/-- A value at the start of the text. -/
def value : Nat → List Char → Except Fault (Document × List Char)
  | 0, _ => .error .malformed
  | n + 1, cs =>
    match skipBlanks cs with
    | '"' :: rest => (string rest).map fun (s, after) => (.string s, after)
    | '[' :: rest =>
      match skipBlanks rest with
      | ']' :: after => .ok (.sequence [], after)
      | items => (restOfItems n items).map fun (ds, after) => (.sequence ds, after)
    | '\x7b' :: rest =>
      match skipBlanks rest with
      | '\x7d' :: after => .ok (.mapping [], after)
      | entries => (restOfEntries n entries).map fun (es, after) => (.mapping es, after)
    | cs =>
      match word? cs with
      | some found => .ok found
      | none => number cs

/-- The values up to a closing bracket, one at least. -/
def restOfItems : Nat → List Char → Except Fault (List Document × List Char)
  | 0, _ => .error .malformed
  | n + 1, cs => do
    let (d, cs) ← value n cs
    match skipBlanks cs with
    | ']' :: after => return ([d], after)
    | ',' :: rest =>
      let (ds, after) ← restOfItems n rest
      return (d :: ds, after)
    | _ => throw .malformed

/-- The entries up to a closing brace, one at least. -/
def restOfEntries : Nat → List Char → Except Fault (List (Document × Document) × List Char)
  | 0, _ => .error .malformed
  | n + 1, cs =>
    match skipBlanks cs with
    | '"' :: rest => do
      let (key, cs) ← string rest
      match skipBlanks cs with
      | ':' :: rest =>
        let (d, cs) ← value n rest
        match skipBlanks cs with
        | '\x7d' :: after => return ([(.string key, d)], after)
        | ',' :: rest =>
          let (es, after) ← restOfEntries n rest
          return ((.string key, d) :: es, after)
        | _ => throw .malformed
      | _ => throw .malformed
    | _ => .error .malformed

end

/-- Reads a text that holds one value. Of two steps into the text one at least reads a character, so
twice its length bounds their number. -/
def parse (text : String) : Except Fault Document := do
  let cs := text.toList
  let (d, after) ← value (2 * cs.length + 1) cs
  if (skipBlanks after).isEmpty then return d else throw .malformed

end Lox.Document.Json

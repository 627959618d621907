import Lox.Document.Yaml.Moment

/-!
# Tags

What a scalar stands for. The tag of a plain scalar is told by its form; it is a string if it has
none of the forms that mean something else.
-/

namespace Lox.Document.Yaml

/-- The kinds of values that are told apart. -/
inductive Tag
  | null
  | bool
  | int
  | float
  | moment
  | string
  | sequence
  | mapping
  /-- A mapping of which the keys alone count. -/
  | set
  /-- The key that stands for the entries of other mappings. -/
  | merge
  /-- The key for the main value of a mapping. -/
  | main
  | unknown
  deriving DecidableEq

/-- Digits may be set apart by underscores. -/
def withoutUnderscores (cs : List Char) : List Char := cs.filter (· ≠ '_')

/-- A sign, which may be left out, and what follows it. -/
def splitSign (cs : List Char) : Bool × List Char :=
  match cs with
  | '-' :: rest => (true, rest)
  | '+' :: rest => (false, rest)
  | _ => (false, cs)

/-- The parts of a text between colons. -/
def colonParts : List Char → List (List Char)
  | [] => [[]]
  | c :: rest =>
    match colonParts rest with
    | part :: parts => if c = ':' then [] :: part :: parts else (c :: part) :: parts
    | [] => [[c]]

namespace Tag

/-! ### Forms of plain scalars -/

def nullWords : List String := ["", "~", "null", "Null", "NULL"]

def trueWords : List String :=
  ["true", "True", "TRUE", "yes", "Yes", "YES", "on", "On", "ON"]

def falseWords : List String :=
  ["false", "False", "FALSE", "no", "No", "NO", "off", "Off", "OFF"]

/-- What infinity is written as, after a sign. -/
def infinityWords : List String := [".inf", ".Inf", ".INF"]

def nanWords : List String := [".nan", ".NaN", ".NAN"]

def isDigitOr (c : Char) : Bool := c.isDigit || c = '_'

/-- Digits and underscores that start with a digit. -/
def isDigits (cs : List Char) : Bool := cs.head?.any Char.isDigit && cs.all isDigitOr

/-- A part after a colon in a number of base 60. -/
def isSixtieth (cs : List Char) : Bool :=
  match cs with
  | [d] => d.isDigit
  | [t, d] => '0' ≤ t && t ≤ '5' && d.isDigit
  | _ => false

/-- An integer: decimal without a leading zero, octal with one, binary after `0b`, hexadecimal after
`0x`, or in base 60 with colons. -/
def isInteger (cs : List Char) : Bool :=
  match (splitSign cs).2 with
  | ['0'] => true
  | '0' :: 'b' :: ds => !ds.isEmpty && ds.all fun d => d = '0' || d = '1' || d = '_'
  | '0' :: 'x' :: ds => !ds.isEmpty && ds.all fun d => (digitValue? d).isSome || d = '_'
  | '0' :: ds => ds.all fun d => ('0' ≤ d && d ≤ '7') || d = '_'
  | ds =>
    match colonParts ds with
    | whole :: sixtieths => isDigits whole && sixtieths.all isSixtieth
    | [] => false

/-- Digits after a point, with an exponent that has to have a sign. -/
def isFraction (cs : List Char) : Bool :=
  match cs.dropWhile isDigitOr with
  | [] => true
  | e :: sign :: ds =>
    (e = 'e' || e = 'E') && (sign = '-' || sign = '+') && !ds.isEmpty && ds.all Char.isDigit
  | _ => false

/-- A number with a point: digits stand before it, or else after it and no sign before it. The
digits before the point may be in base 60. -/
def isReal (cs : List Char) : Bool :=
  let unsigned := (splitSign cs).2
  infinityWords.contains (String.ofList unsigned) || nanWords.contains (String.ofList cs)
    || match unsigned.span (· ≠ '.') with
      | ([], '.' :: fraction) =>
        unsigned.length = cs.length && fraction.head?.any Char.isDigit && isFraction fraction
      | (whole, '.' :: fraction) =>
        match colonParts whole with
        | [_] => isDigits whole && isFraction fraction
        | part :: sixtieths =>
          isDigits part && sixtieths.all isSixtieth && fraction.all isDigitOr
        | [] => false
      | _ => false

/-- The tag of a plain scalar. -/
def ofPlain (text : String) : Tag :=
  let cs := text.toList
  if nullWords.contains text then null
  else if trueWords.contains text || falseWords.contains text then bool
  else if isInteger cs then int
  else if isReal cs then float
  else if (Moment.parse? cs).isSome then moment
  else if text = "<<" then merge
  else if text = "=" then main
  else string

/-- The start of the names of the tags that are known. -/
def standardStart : String := "tag:yaml.org,2002:"

/-- The names of the tags that are known. -/
def standardNames : List (String × Tag) :=
  [("null", null), ("bool", bool), ("int", int), ("float", float), ("timestamp", moment),
   ("str", string), ("seq", sequence), ("map", mapping), ("set", set), ("merge", merge),
   ("value", main)]

/-- The tag of a name. -/
def ofName (name : String) : Tag :=
  match standardNames.find? fun (known, _) => standardStart ++ known = name with
  | some (_, tag) => tag
  | none => unknown

/-! ### Values of scalars -/

/-- The number whose digits in base 60 are given, the first digit first. -/
def integerOfParts (parts : List (List Char)) : Except Fault Nat :=
  parts.foldlM (fun acc part => return acc * 60 + (← natOfDigits 10 part)) 0

/-- The integer a scalar stands for. -/
def readInteger (cs : List Char) : Except Fault Int := do
  let (negative, digits) := splitSign (withoutUnderscores cs)
  let n ← match digits with
    | [] => throw .malformed
    | ['0'] => pure 0
    | '0' :: 'b' :: ds => natOfDigits 2 ds
    | '0' :: 'x' :: ds => natOfDigits 16 ds
    | '0' :: ds => natOfDigits 8 ('0' :: ds)
    | ds => integerOfParts (colonParts ds)
  return signed negative n

/-- The double a decimal stands for, with a point or an exponent or neither. -/
def readDecimal (cs : List Char) : Except Fault Float :=
  let (whole, rest) := spanDigits cs
  let (fraction, rest) := match rest with
    | '.' :: after => spanDigits after
    | _ => ([], rest)
  let (exponent?, rest) := exponentPart? rest
  if rest.isEmpty && !(whole.isEmpty && fraction.isEmpty) then
    .ok (floatOfDecimal false (whole ++ fraction) (exponent?.getD 0 - fraction.length))
  else .error (.notAReal (String.ofList cs))

/-- The double whose parts in base 60 are given, the last part first. -/
def floatOfParts : Float → List (List Char) → Except Fault Float
  | _, [] => .ok 0
  | scale, part :: parts => do
    let x ← readDecimal part
    let more ← floatOfParts (scale * 60) parts
    return x * scale + more

/-- The double a scalar stands for. -/
def readReal (cs : List Char) : Except Fault Float := do
  let (negative, digits) := splitSign ((withoutUnderscores cs).map Char.toLower)
  let word := String.ofList digits
  let x ←
    if infinityWords.contains word then pure (1 / 0)
    else if nanWords.contains word then pure (0 / 0)
    else if digits.isEmpty then throw .malformed
    else if digits.contains ':' then floatOfParts 1 (colonParts digits).reverse
    else readDecimal digits
  return if negative then -x else x

/-- The truth value a scalar stands for. -/
def readBool (text : String) : Except Fault Bool :=
  if trueWords.contains text.toLower then .ok true
  else if falseWords.contains text.toLower then .ok false
  else .error .malformed

/-- The document a scalar of a tag stands for. -/
def read (tag : Tag) (text : String) : Except Fault Document :=
  match tag with
  | null => .ok .null
  | bool => (readBool text).map .bool
  | int => (readInteger text.toList).map .integer
  | float => (readReal text.toList).map .real
  | moment =>
    match Moment.parse? text.toList with
    | some m => m.check.map fun _ => .moment text
    | none => .error .malformed
  | string => .ok (.string text)
  | _ => .error .malformed

end Tag

end Lox.Document.Yaml

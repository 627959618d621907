import Lox.Document
import Lox.Document.Fault

/-!
# Numbers and escapes

The pieces that the notations for documents have in common: digits, decimals, and the characters
that escapes name by numbers.
-/

namespace Lox.Document

/-! ### Digits -/

/-- The leading decimal digits, and what follows them. -/
def spanDigits (cs : List Char) : List Char × List Char :=
  (cs.takeWhile Char.isDigit, cs.dropWhile Char.isDigit)

/-- The value of a digit in bases up to 16. -/
def digitValue? (c : Char) : Option Nat :=
  if '0' ≤ c ∧ c ≤ '9' then some (c.toNat - '0'.toNat)
  else if 'a' ≤ c ∧ c ≤ 'f' then some (c.toNat - 'a'.toNat + 10)
  else if 'A' ≤ c ∧ c ≤ 'F' then some (c.toNat - 'A'.toNat + 10)
  else none

/-- The number that digits of a base stand for; `none` if there are no digits, or others. -/
def natOfDigits? (base : Nat) (cs : List Char) : Option Nat :=
  if cs.isEmpty then none
  else cs.foldl (fun acc c => do
    let n ← acc
    let d ← digitValue? c
    if d < base then some (n * base + d) else none) (some 0)

/-- The number of decimal digits, where none stand for zero. -/
def natOfDecimal (cs : List Char) : Nat := (natOfDigits? 10 cs).getD 0

/-- The number that digits of a base stand for. Decimal digits may not be too many. -/
def natOfDigits (base : Nat) (cs : List Char) : Except Fault Nat :=
  if base = 10 ∧ maxIntegerDigits < cs.length ∧ cs.all Char.isDigit then
    .error (.tooManyDigits cs.length)
  else
    match natOfDigits? base cs with
    | some n => .ok n
    | none => .error (.notAnInteger base (String.ofList cs))

/-- An integer with a sign in front of its digits. -/
def signed (negative : Bool) (n : Nat) : Int := if negative then -n else n

/-! ### Decimals -/

/-- Powers of ten beyond which every decimal is zero or infinite. -/
def maxDecimalExponent : Nat := 400

/-- The double nearest to `digits * 10 ^ exponent`. -/
def floatOfDecimal (negative : Bool) (digits : List Char) (exponent : Int) : Float :=
  let m := natOfDecimal digits
  let bound : Int := maxDecimalExponent + digits.length
  let e := max (-bound) (min bound exponent)
  let x := Float.ofScientific m (e < 0) e.natAbs
  if negative then -x else x

/-- An exponent: `e` or `E`, a sign that may be left out, and digits. What does not have this form
is left alone, with no exponent. -/
def exponentPart? (cs : List Char) : Option Int × List Char :=
  match cs with
  | e :: rest =>
    if e = 'e' ∨ e = 'E' then
      let (negative, digits) := match rest with
        | '-' :: r => (true, r)
        | '+' :: r => (false, r)
        | r => (false, r)
      match spanDigits digits with
      | ([], _) => (none, cs)
      | (ds, after) => (some (signed negative (natOfDecimal ds)), after)
    else (none, cs)
  | [] => (none, cs)

/-! ### Escapes -/

/-- Code points as characters; the two halves of a surrogate pair make one character. -/
def charsOfPoints : List Nat → List Char
  | [] => []
  | hi :: lo :: rest =>
    if 0xd800 ≤ hi ∧ hi < 0xdc00 ∧ 0xdc00 ≤ lo ∧ lo < 0xe000 then
      Char.ofNat (0x10000 + (hi - 0xd800) * 0x400 + (lo - 0xdc00)) :: charsOfPoints rest
    else Char.ofNat hi :: charsOfPoints (lo :: rest)
  | [p] => [Char.ofNat p]

end Lox.Document

import Lox.Number.Shortest

/-!
# The text of a number

A number is written with the digits of its shortest decimal: positionally if the power of ten of
its leading digit is neither very small nor very large, and with an exponent otherwise. Printed
values and syntax trees differ only in how they write whole numbers and the numbers that are not
finite; a `Style` says how.
-/

namespace Lox.Number

/-- What is left open by the common rule. -/
structure Style where
  /-- Written after a whole number in positional notation. -/
  wholeSuffix : String
  nan : String
  infinity : String
  deriving DecidableEq

/-- Printed values: `3`, `NaN`, `Infinity`. -/
def Style.display : Style := ⟨"", "NaN", "Infinity"⟩

/-- Numbers in syntax trees and tokens: `3.0`, `nan`, `inf`. -/
def Style.tree : Style := ⟨".0", "nan", "inf"⟩

/-- The powers of ten of the leading digit that are written positionally. -/
def isPositional (e : Int) : Bool := decide (-4 ≤ e ∧ e < 16)

/-- An exponent has a sign and at least two digits. -/
def exponentText (e : Int) : String :=
  let digits := toString e.natAbs
  (if e < 0 then "e-" else "e+") ++ (if digits.length < 2 then "0" ++ digits else digits)

/-- A decimal in the given style. -/
def Decimal.text (style : Style) (x : Decimal) : String :=
  let digits := Nat.toDigits 10 x.digits
  let e : Int := digits.length + x.exponent - 1
  if isPositional e then
    if 0 ≤ x.exponent then
      String.ofList (digits ++ List.replicate x.exponent.toNat '0') ++ style.wholeSuffix
    else if 0 ≤ e then
      let whole := e.toNat + 1
      String.ofList (digits.take whole) ++ "." ++ String.ofList (digits.drop whole)
    else
      "0." ++ String.ofList (List.replicate (-e).toNat.pred '0' ++ digits)
  else
    match digits with
    | [] => ""
    | [d] => d.toString ++ exponentText e
    | d :: ds => d.toString ++ "." ++ String.ofList ds ++ exponentText e

/-- Whether the sign bit of a double is set; it is for `-0.0`. -/
def signBit (x : Float) : Bool := x.toBits.toNat ≥ Nat.pow 2 63

/-- The text of a double in the given style. -/
def text (style : Style) (x : Float) : String :=
  if x.isNaN then style.nan
  else
    let sign := if signBit x then "-" else ""
    if x.isInf then sign ++ style.infinity
    else sign ++ (shortest (Dyadic.ofFloat x)).text style

/-- The double nearest to an integer, the even one of two equally near; `none` if it is too
large. -/
def ofInt? (i : Int) : Option Float :=
  let x := Float.ofInt i
  if x.isInf then none else some x

end Lox.Number

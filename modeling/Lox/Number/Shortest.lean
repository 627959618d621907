/-!
# The shortest decimal of a double

A finite double stands for a number `m * 2 ^ q`, and every real strictly closer to it than to its
neighbours reads back as that double; the two ends of this interval do so when `m` is even. The
shortest decimal is the point of the coarsest grid `{d * 10 ^ k}` that lies in the interval, the
nearest one if there are two, and the one with the even last digit if both are equally near.

All comparisons are made on natural numbers, so the result is exact.
-/

namespace Lox.Number

/-- The magnitude `mantissa * 2 ^ exponent` of a finite double. -/
structure Dyadic where
  mantissa : Nat
  exponent : Int
  deriving DecidableEq

namespace Dyadic

/-- The exponent of the smallest doubles; below it the spacing of doubles does not shrink. -/
def leastExponent : Int := -1074

/-- The number of explicit bits of a mantissa. -/
def fractionBits : Nat := 52

/-- The magnitude of a finite double, read off its bits. -/
def ofFloat (x : Float) : Dyadic :=
  let bits := x.toBits.toNat
  let fraction := bits % Nat.pow 2 fractionBits
  let biased := bits / Nat.pow 2 fractionBits % Nat.pow 2 11
  if biased = 0 then ⟨fraction, leastExponent⟩
  else ⟨Nat.pow 2 fractionBits + fraction, leastExponent + (biased - 1 : Nat)⟩

/-! The interval of the reals that read back, in quarters of the spacing `2 ^ exponent`. -/

/-- The value itself. -/
def quarters (x : Dyadic) : Nat := 4 * x.mantissa

/-- The lower end: half the spacing below, or a quarter where the spacing halves. -/
def lowerQuarters (x : Dyadic) : Nat :=
  if x.mantissa = Nat.pow 2 fractionBits ∧ x.exponent ≠ leastExponent then x.quarters - 1
  else x.quarters - 2

/-- The upper end: half the spacing above. -/
def upperQuarters (x : Dyadic) : Nat := x.quarters + 2

end Dyadic

/-- The number `digits * 10 ^ exponent`. -/
structure Decimal where
  digits : Nat
  exponent : Int
  deriving DecidableEq

/-- Two factors `a` and `b` such that `r * 2 ^ (q - 2)` over `10 ^ k` is `r * a` over `b`, where
`q` is the exponent of `x`. -/
def gridFactors (x : Dyadic) (k : Int) : Nat × Nat :=
  let e := x.exponent - 2
  (Nat.pow 2 e.toNat * Nat.pow 10 (-k).toNat, Nat.pow 2 (-e).toNat * Nat.pow 10 k.toNat)

/-- Whether `d * 10 ^ k` reads back as `x`. -/
def readsBack (x : Dyadic) (k : Int) (d : Nat) : Bool :=
  let (a, b) := gridFactors x k
  if x.mantissa % 2 = 0 then
    decide (x.lowerQuarters * a ≤ d * b ∧ d * b ≤ x.upperQuarters * a)
  else
    decide (x.lowerQuarters * a < d * b ∧ d * b < x.upperQuarters * a)

/-- The point of the grid `10 ^ k` next below `x`, or `x` itself. -/
def gridFloor (x : Dyadic) (k : Int) : Nat :=
  let (a, b) := gridFactors x k
  x.quarters * a / b

/-- Of the neighbours `d` and `d + 1` on the grid `10 ^ k`, the nearer to `x`; of two equally near,
the even one. -/
def nearerNeighbour (x : Dyadic) (k : Int) (d : Nat) : Nat :=
  let (a, b) := gridFactors x k
  let below := x.quarters * a - d * b
  let above := (d + 1) * b - x.quarters * a
  if below < above then d
  else if above < below then d + 1
  else if d % 2 = 0 then d else d + 1

/-- The digits of the grid point that stands for `x`, if one reads back. -/
def gridHit? (x : Dyadic) (k : Int) : Option Nat :=
  let d := gridFloor x k
  match readsBack x k d, readsBack x k (d + 1) with
  | true, true => some (nearerNeighbour x k d)
  | true, false => some d
  | false, true => some (d + 1)
  | false, false => none

/-- The power of ten of the leading digit of a positive `x`. -/
def leadingExponent (x : Dyadic) : Int :=
  let (num, den) := gridFactors x 0
  let value := x.quarters * num
  if den ≤ value then (Nat.toDigits 10 (value / den)).length - 1
  else -((Nat.toDigits 10 ((den - 1) / value)).length : Int)

/-- Tries the grids `10 ^ k`, `10 ^ (k - 1)`, … and takes the first that holds a number that reads
back; after `steps` grids the digits are cut off at the next one. -/
def searchGrids (x : Dyadic) : Nat → Int → Decimal
  | 0, k => ⟨gridFloor x k, k⟩
  | steps + 1, k =>
    match gridHit? x k with
    | some d => ⟨d, k⟩
    | none => searchGrids x steps (k - 1)

/-- No double needs more digits than this to be told from its neighbours. -/
def maxDigits : Nat := 17

/-- The shortest decimal that reads back as `x`; zero has the single digit `0`. -/
def shortest (x : Dyadic) : Decimal :=
  if x.mantissa = 0 then ⟨0, 0⟩
  else searchGrids x (maxDigits + 1) (leadingExponent x + 1)

end Lox.Number

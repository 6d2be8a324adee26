import LeveragedLp.Decimal.Rounding

/-!
# Binary fractions of 53 bits

A binary64 is a natural number below `2 ^ 53` times a power of two from `2 ^ -1074` to `2 ^ 971`;
signs are kept by those who use it. `Binary64.nearest?` rounds a quotient to the nearest
binary64, a tie to the even one. `Binary64.digits` gives the fewest decimal digits that round
back to a binary64, and of those the nearest to it.
-/

set_option autoImplicit false

namespace LeveragedLp

/-- The number `significand * 2 ^ (power - 1074)`. -/
structure Binary64 where
  significand : Nat
  power : Nat
deriving DecidableEq

namespace Binary64

/-- The largest power a binary64 can have. -/
def maxPower : Nat := 971 + 1074

/-- Numerator and denominator of the number. -/
def fraction (x : Binary64) : Nat × Nat :=
  if 1074 ≤ x.power then (x.significand * twoPow (x.power - 1074), 1)
  else (x.significand, twoPow (1074 - x.power))

/-- The quotient rounded to a multiple of `2 ^ (power - 1074)`, as a count of them. -/
def countAt (num den power : Nat) : Nat :=
  if 1074 ≤ power then roundHalfEven num (den * twoPow (power - 1074))
  else roundHalfEven (num * twoPow (1074 - power)) den

/-- A power at which the quotient has 53 or 54 bits, or the least power. -/
def startPower (num den : Nat) : Nat := (num.log2 + 1074) - (den.log2 + 53)

/-- Searches upwards for the first power at which the rounded quotient has 53 bits. -/
def firstFit (num den : Nat) : Nat → Nat → Option Binary64
  | 0, _ => none
  | tries + 1, power =>
    if maxPower < power then none
    else if countAt num den power < twoPow 53 then some ⟨countAt num den power, power⟩
    else firstFit num den tries (power + 1)

/-- The binary64 nearest to a quotient, if the quotient is not too large. -/
def nearest? (num den : Nat) : Option Binary64 :=
  if num = 0 then some ⟨0, 0⟩ else firstFit num den 4 (startPower num den)

/-- The rounded product. -/
def mul? (x y : Binary64) : Option Binary64 :=
  nearest? (x.fraction.1 * y.fraction.1) (x.fraction.2 * y.fraction.2)

/-- The rounded quotient. -/
def div? (x y : Binary64) : Option Binary64 :=
  nearest? (x.fraction.1 * y.fraction.2) (x.fraction.2 * y.fraction.1)

/-! ## Shortest digits -/

/-- The numbers that round to a binary64 lie within a quarter of unit steps: four times the
number, and the distances down and up, all over four times the denominator. -/
structure Interval where
  center : Nat
  below : Nat
  above : Nat
  den : Nat
  closed : Bool

/-- The interval of the numbers that round to `x`. Its ends belong to it when the significand is
even; below a power of two the neighbours are twice as near. -/
def interval (x : Binary64) : Interval :=
  let (num, den) := x.fraction
  let step := if 1074 ≤ x.power then twoPow (x.power - 1074) else 1
  { center := 4 * num
    below := if x.significand = twoPow 52 ∧ 0 < x.power then step else 2 * step
    above := 2 * step
    den := 4 * den
    closed := x.significand % 2 = 0 }

/-- Whether the number `a / b` lies in an interval. -/
def Interval.contains (i : Interval) (a b : Nat) : Bool :=
  let low := (i.center - i.below) * b
  let high := (i.center + i.above) * b
  let here := a * i.den
  if i.closed then low ≤ here && here ≤ high else low < here && here < high

/-- The multiple of `a / b` in an interval that is nearest to its center, as a count. -/
def Interval.nearestMultiple? (i : Interval) (a b : Nat) : Option Nat :=
  let down := i.center * b / (i.den * a)
  let up := down + 1
  let downFits := i.contains (down * a) b
  let upFits := i.contains (up * a) b
  let upNearer := i.center * b * 2 ≥ (down + up) * a * i.den
  if upFits && (!downFits || upNearer) then some up
  else if downFits then some down
  else none

/-- Searches coarse steps of powers of ten before finer ones. The result is a count of the steps
and the exponent of the step: upwards while the step is above one, then downwards. -/
def searchDigits (i : Interval) : Nat → Option (Nat × Int)
  | 0 => none
  | tries + 1 =>
    let exponent : Int := (tries : Int) - 345
    let (a, b) := if 0 ≤ exponent then (tenPow exponent.toNat, 1) else (1, tenPow (-exponent).toNat)
    match i.nearestMultiple? a b with
    | some 0 => searchDigits i tries
    | some n => some (n, exponent)
    | none => searchDigits i tries

/-- Digits and the exponent of the last of them. -/
def digits (x : Binary64) : Nat × Int :=
  if x.significand = 0 then (0, 0) else (searchDigits x.interval 655).getD (0, 0)

/-- The digits without an exponent, with zeros where they are needed. -/
def positional (x : Binary64) : Nat × Nat :=
  let (n, exponent) := x.digits
  if 0 ≤ exponent then (n * tenPow exponent.toNat, 0) else (n, (-exponent).toNat)

end Binary64

end LeveragedLp

import LeveragedLp.Decimal.Basic

/-!
# Rounding a quotient

`roundHalfEven` and `roundHalfUp` round an exact quotient of natural numbers to a natural
number; they differ only at a tie. `Decimal.nearest?` rounds a quotient to a decimal: it takes
the largest scale at which the rounded mantissa fits in 96 bits, and fails when not even the
whole part fits.
-/

set_option autoImplicit false

namespace LeveragedLp

/-- `num / den` to the nearest natural number, a tie to the even neighbour. -/
def roundHalfEven (num den : Nat) : Nat :=
  let q := num / den
  let r := num % den
  if 2 * r < den ∨ (2 * r = den ∧ q % 2 = 0) then q else q + 1

/-- `num / den` to the nearest natural number, a tie to the upper neighbour. -/
def roundHalfUp (num den : Nat) : Nat :=
  if 2 * (num % den) < den then num / den else num / den + 1

namespace Decimal

/-- `num / den` rounded half to even at the largest scale, up to the given one, where the
rounded mantissa fits. -/
def nearestFrom (negative : Bool) (num den : Nat) : Nat → Option Decimal
  | 0 => ofParts? negative (roundHalfEven num den) 0
  | s + 1 =>
    match ofParts? negative (roundHalfEven (num * tenPow (s + 1)) den) (s + 1) with
    | some d => some d
    | none => nearestFrom negative num den s

/-- The decimal nearest to `± num / den`, without trailing zeros. It is exact whenever the
quotient is a decimal. -/
def nearest? (negative : Bool) (num den : Nat) : Option Decimal :=
  (nearestFrom negative num den 28).map normalize

end Decimal

end LeveragedLp

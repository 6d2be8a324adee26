import LeveragedLp.Decimal.Rounding

/-!
# Arithmetic of decimals

Products and quotients are taken exactly and rounded once (`Decimal.nearest?`). Subtracting one
from a decimal that is at least one is exact and keeps the scale.
-/

set_option autoImplicit false

namespace LeveragedLp

namespace Decimal

/-- The product, rounded once; `none` when its whole part has more than 96 bits. -/
def mul? (a b : Decimal) : Option Decimal :=
  nearest? (a.negative != b.negative) (a.mantissa * b.mantissa) (tenPow (a.scale + b.scale))

/-- The quotient, rounded once; `none` for a zero divisor and when its whole part has more than
96 bits. -/
def div? (a b : Decimal) : Option Decimal :=
  if b.isZero then none
  else nearest? (a.negative != b.negative) (a.mantissa * tenPow b.scale)
    (b.mantissa * tenPow a.scale)

theorem div?_of_pos {a b : Decimal} (hpos : 0 < b.mantissa) :
    a.div? b = nearest? (a.negative != b.negative) (a.mantissa * tenPow b.scale)
      (b.mantissa * tenPow a.scale) := by
  have hzero : ¬ b.isZero = true := by
    rw [isZero, beq_iff_eq]
    omega
  exact if_neg hzero

/-- What was divided by is not zero. -/
theorem pos_of_div? {a b d : Decimal} (h : a.div? b = some d) : 0 < b.mantissa := by
  unfold div? at h
  by_cases hzero : b.isZero = true
  · rw [if_pos hzero] at h
    cases h
  · apply Nat.pos_of_ne_zero
    intro h0
    exact hzero (beq_iff_eq.2 h0)

/-- What a non-negative decimal exceeds one by, zero if it does not. -/
def excessOverOne (d : Decimal) : Decimal where
  negative := false
  mantissa := d.mantissa - tenPow d.scale
  scale := d.scale
  mantissa_lt := Nat.lt_of_le_of_lt (Nat.sub_le _ _) d.mantissa_lt
  scale_le := d.scale_le

end Decimal

end LeveragedLp

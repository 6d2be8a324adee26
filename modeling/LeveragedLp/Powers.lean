/-!
# Powers of two and ten

The two rows of natural numbers that bound words and mantissas and that place decimal points.
-/

set_option autoImplicit false

namespace LeveragedLp

/-- The power of two with the given exponent. -/
def twoPow (n : Nat) : Nat := Nat.pow 2 n

/-- The power of ten with the given exponent. -/
def tenPow (n : Nat) : Nat := Nat.pow 10 n

theorem tenPow_zero : tenPow 0 = 1 := rfl

theorem tenPow_succ (n : Nat) : tenPow (n + 1) = tenPow n * 10 := rfl

theorem tenPow_pos (n : Nat) : 0 < tenPow n := Nat.pow_pos (by decide)

theorem tenPow_add (m n : Nat) : tenPow (m + n) = tenPow m * tenPow n := by
  induction n with
  | zero => exact (Nat.mul_one _).symm
  | succ n ih => rw [← Nat.add_assoc, tenPow_succ, tenPow_succ, ih, Nat.mul_assoc]

end LeveragedLp

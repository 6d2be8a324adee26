import LeveragedLp.Powers

/-!
# Decimals

A decimal is a sign, a mantissa below `2 ^ 96` and a scale of at most 28 places, and stands for
`± mantissa / 10 ^ scale`. Two decimals are compared by the number they stand for, whatever
their scales; equality of the records also compares the scales, which a reader of the written
text can see. `Decimal.normalize` gives the one record without trailing zeros, and
`Decimal.whole` the part before the point.
-/

set_option autoImplicit false

namespace LeveragedLp

/-- A sign, a mantissa of 96 bits and the number of places after the point. -/
structure Decimal where
  negative : Bool
  mantissa : Nat
  scale : Nat
  mantissa_lt : mantissa < twoPow 96 := by decide
  scale_le : scale ≤ 28 := by decide
deriving DecidableEq

namespace Decimal

/-- The decimal with the given parts, when they are in range. -/
def ofParts? (negative : Bool) (mantissa scale : Nat) : Option Decimal :=
  if h : mantissa < twoPow 96 ∧ scale ≤ 28 then some ⟨negative, mantissa, scale, h.1, h.2⟩ else none

/-- A natural number as a decimal of scale 0, when it has at most 96 bits. -/
def ofNat? (n : Nat) : Option Decimal := ofParts? false n 0

/-- Every machine word is a decimal. -/
def ofUInt64 (n : UInt64) : Decimal where
  negative := false
  mantissa := n.toNat
  scale := 0
  mantissa_lt := Nat.lt_trans n.toNat_lt (by decide)

/-- A number of tenths, written with one place. -/
def tenths (n : UInt64) : Decimal := { ofUInt64 n with scale := 1, scale_le := by decide }

/-- A number of hundredths, written with two places. -/
def hundredths (n : UInt64) : Decimal := { ofUInt64 n with scale := 2, scale_le := by decide }

def zero : Decimal := { negative := false, mantissa := 0, scale := 0 }

def one : Decimal := { negative := false, mantissa := 1, scale := 0 }

/-- The largest decimal, `2 ^ 96 - 1`. -/
def largest : Decimal := { negative := false, mantissa := twoPow 96 - 1, scale := 0 }

instance : Inhabited Decimal := ⟨zero⟩

/-! ## Value and order -/

/-- The mantissa with its sign. -/
def signed (d : Decimal) : Int := if d.negative then -(d.mantissa : Int) else d.mantissa

/-- Neither the sign of a zero nor its scale matters. -/
def isZero (d : Decimal) : Bool := d.mantissa == 0

instance : LE Decimal := ⟨fun a b => a.signed * tenPow b.scale ≤ b.signed * tenPow a.scale⟩

instance : LT Decimal := ⟨fun a b => a.signed * tenPow b.scale < b.signed * tenPow a.scale⟩

instance (a b : Decimal) : Decidable (a ≤ b) :=
  inferInstanceAs (Decidable (a.signed * tenPow b.scale ≤ b.signed * tenPow a.scale))

instance (a b : Decimal) : Decidable (a < b) :=
  inferInstanceAs (Decidable (a.signed * tenPow b.scale < b.signed * tenPow a.scale))

theorem not_le {a b : Decimal} : ¬ a ≤ b ↔ b < a := Int.not_le

/-- Decimals are compared over the product of their denominators, so a third one in between is
brought to the same product first. -/
theorem le_trans {a b c : Decimal} (hab : a ≤ b) (hbc : b ≤ c) : a ≤ c := by
  have hpos : ∀ n, (0 : Int) < tenPow n := fun n => Int.ofNat_lt.2 (tenPow_pos n)
  have hleft : a.signed * tenPow b.scale * tenPow c.scale ≤
      b.signed * tenPow a.scale * tenPow c.scale :=
    Int.mul_le_mul_of_nonneg_right hab (Int.le_of_lt (hpos c.scale))
  have hright : b.signed * tenPow c.scale * tenPow a.scale ≤
      c.signed * tenPow b.scale * tenPow a.scale :=
    Int.mul_le_mul_of_nonneg_right hbc (Int.le_of_lt (hpos a.scale))
  have hproduct : a.signed * tenPow c.scale * tenPow b.scale ≤
      c.signed * tenPow a.scale * tenPow b.scale := by
    calc a.signed * tenPow c.scale * tenPow b.scale
        = a.signed * tenPow b.scale * tenPow c.scale := Int.mul_right_comm ..
      _ ≤ b.signed * tenPow a.scale * tenPow c.scale := hleft
      _ = b.signed * tenPow c.scale * tenPow a.scale := Int.mul_right_comm ..
      _ ≤ c.signed * tenPow b.scale * tenPow a.scale := hright
      _ = c.signed * tenPow a.scale * tenPow b.scale := Int.mul_right_comm ..
  exact Int.le_of_mul_le_mul_right hproduct (hpos b.scale)

/-- The digits before the point, without the sign. -/
def whole (d : Decimal) : Nat := d.mantissa / tenPow d.scale

/-! ## Trailing zeros -/

/-- Mantissa and scale after the zeros at the end of the fraction are taken off. -/
def stripZeros : Nat → Nat → Nat × Nat
  | m, 0 => (m, 0)
  | m, s + 1 => if m % 10 = 0 then stripZeros (m / 10) s else (m, s + 1)

theorem stripZeros_fst_le (m s : Nat) : (stripZeros m s).1 ≤ m := by
  induction s generalizing m with
  | zero => exact Nat.le_refl m
  | succ s ih =>
      unfold stripZeros
      split
      · exact Nat.le_trans (ih (m / 10)) (Nat.div_le_self m 10)
      · exact Nat.le_refl m

theorem stripZeros_snd_le (m s : Nat) : (stripZeros m s).2 ≤ s := by
  induction s generalizing m with
  | zero => exact Nat.le_refl 0
  | succ s ih =>
      unfold stripZeros
      split
      · exact Nat.le_succ_of_le (ih (m / 10))
      · exact Nat.le_refl (s + 1)

/-- Taking zeros off leaves the quotient `m / 10 ^ s` as it is. -/
theorem stripZeros_value (m s : Nat) :
    (stripZeros m s).1 * tenPow s = m * tenPow (stripZeros m s).2 := by
  induction s generalizing m with
  | zero => rfl
  | succ s ih =>
      unfold stripZeros
      split
      · have hm : m / 10 * 10 = m := by omega
        rw [tenPow_succ, ← Nat.mul_assoc, ih (m / 10), Nat.mul_right_comm, hm]
      · rfl

/-- The same number with the fewest places; a zero becomes the plain `zero`. -/
def normalize (d : Decimal) : Decimal where
  negative := d.negative && d.mantissa != 0
  mantissa := (stripZeros d.mantissa d.scale).1
  scale := (stripZeros d.mantissa d.scale).2
  mantissa_lt := Nat.lt_of_le_of_lt (stripZeros_fst_le _ _) d.mantissa_lt
  scale_le := Nat.le_trans (stripZeros_snd_le _ _) d.scale_le

end Decimal

end LeveragedLp

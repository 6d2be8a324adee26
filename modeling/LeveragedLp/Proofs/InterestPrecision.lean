import LeveragedLp.Proofs.InterestOrder
import LeveragedLp.Proofs.Thresholds

/-!
# How precise interest is

Interest is rounded three times before its fraction is dropped: when the rate is multiplied by the
seconds, when that is divided by the seconds of a year, and when the debt is multiplied by the
result. A decimal that was rounded is off by half a unit of its last place, which is the last of 28
places, or else one that leaves the mantissa full, so that the error is a small part of the decimal
itself (`Decimal.Rounds`). In front of a debt of `2 ^ 96` the first kind of error is worth less than
four units. The second is worth five: the debt times the decimal is the interest, a decimal itself,
so that an error of five parts in `2 ^ 96` is no more than five units of it, however large the debt
is (`Decimal.Rounds.amplified`). Two such errors and the half unit of the last product stay below
eleven units (`interest_is_precise`).
-/

set_option autoImplicit false

namespace LeveragedLp

namespace Decimal

variable {a b c d : Decimal} {num den : Nat} {x : ℚ}

/-! ## Magnitudes -/

/-- The number that a decimal stands for, its sign disregarded. -/
def magnitude (d : Decimal) : ℚ := d.mantissa / tenPow d.scale

theorem value_eq_magnitude (h : d.negative = false) : d.value = d.magnitude := by
  unfold value magnitude
  rw [signed_of_not_negative h, Int.cast_natCast]

theorem magnitude_normalize (d : Decimal) : d.normalize.magnitude = d.magnitude := by
  have hvalue : d.normalize.mantissa * tenPow d.scale = d.mantissa * tenPow d.normalize.scale :=
    stripZeros_value d.mantissa d.scale
  unfold magnitude
  rw [div_eq_div_iff (tenPow_cast_pos _).ne' (tenPow_cast_pos _).ne']
  exact_mod_cast hvalue

theorem magnitude_ofUInt64 (n : UInt64) : (ofUInt64 n).magnitude = n.toNat := by
  show (n.toNat : ℚ) / (tenPow 0 : Nat) = n.toNat
  rw [tenPow_zero, Nat.cast_one, div_one]

theorem one_le_tenPow (n : Nat) : (1 : ℚ) ≤ tenPow n := by exact_mod_cast tenPow_pos n

/-- No decimal reaches `2 ^ 96`, whatever its scale. -/
theorem magnitude_lt (d : Decimal) : d.magnitude < 2 ^ 96 := by
  have hmantissa : (d.mantissa : ℚ) < 2 ^ 96 := by exact_mod_cast d.mantissa_lt
  calc d.magnitude ≤ d.mantissa := div_le_self (by positivity) (one_le_tenPow d.scale)
    _ < 2 ^ 96 := hmantissa

/-- The digits before the point are the whole part of the magnitude. -/
theorem floor_magnitude (d : Decimal) : ⌊d.magnitude⌋ = d.whole := by
  unfold magnitude whole
  exact Rat.floor_natCast_div_natCast d.mantissa (tenPow d.scale)

/-! ## The error of one rounding -/

/-- A decimal that a number was rounded to is off by half a unit at most, and by no more than half a
unit of the 28th place or five parts in `2 ^ 96` of itself. -/
structure Rounds (x : ℚ) (d : Decimal) : Prop where
  half : |d.magnitude - x| ≤ 1 / 2
  fine : |d.magnitude - x| ≤ max (1 / 2 / 10 ^ 28) (5 / 2 ^ 96 * d.magnitude)

/-- What is rounded is off by half a unit of the last place. -/
theorem Nearest.error_le (hden : 0 < den) (hc : Nearest num den c) :
    |c.magnitude - num / den| ≤ 1 / 2 / tenPow c.scale := by
  obtain ⟨hup, hdown⟩ := two_mul_roundHalfEven (num * tenPow c.scale) hden
  rw [← hc.mantissa_eq] at hup hdown
  have hup : (2 : ℚ) * (c.mantissa * den) ≤ 2 * (num * tenPow c.scale) + den := by
    exact_mod_cast hup
  have hdown : (2 : ℚ) * (num * tenPow c.scale) ≤ 2 * (c.mantissa * den) + den := by
    exact_mod_cast hdown
  have hpos : (0 : ℚ) < den := by exact_mod_cast hden
  have hten := tenPow_cast_pos c.scale
  have herror : c.magnitude - num / den =
      (c.mantissa * den - num * tenPow c.scale) / (tenPow c.scale * den) := by
    unfold magnitude
    field_simp
  have hbound : (1 : ℚ) / 2 / tenPow c.scale = den / 2 / (tenPow c.scale * den) := by
    field_simp
  rw [herror, hbound, abs_div, abs_of_pos (mul_pos hten hpos)]
  apply div_le_div_of_nonneg_right _ (mul_pos hten hpos).le
  rw [abs_le]
  constructor
  · linarith
  · linarith

/-- Unless all 28 places are used the mantissa is full, so that half a unit of the last place is a
small part of the decimal. -/
theorem Nearest.rounds (hden : 0 < den) (hc : Nearest num den c) : c.Rounds (num / den) := by
  have herror := hc.error_le hden
  constructor
  case half =>
    calc |c.magnitude - num / den| ≤ 1 / 2 / tenPow c.scale := herror
      _ ≤ 1 / 2 := div_le_self (by norm_num) (one_le_tenPow c.scale)
  case fine =>
    apply herror.trans
    by_cases hscale : c.scale < 28
    · apply le_max_of_le_right
      have hroom : (2 : ℚ) ^ 96 ≤ c.mantissa * 10 := by exact_mod_cast hc.no_room hden hscale
      have hhalf : (1 : ℚ) / 2 ≤ 5 / 2 ^ 96 * c.mantissa := by linarith
      calc (1 : ℚ) / 2 / tenPow c.scale
          ≤ 5 / 2 ^ 96 * c.mantissa / tenPow c.scale :=
            div_le_div_of_nonneg_right hhalf (tenPow_cast_pos c.scale).le
        _ = 5 / 2 ^ 96 * c.magnitude := mul_div_assoc ..
    · apply le_max_of_le_left
      have hlast : c.scale = 28 := Nat.le_antisymm c.scale_le (Nat.le_of_not_lt hscale)
      rw [hlast]
      norm_num [tenPow]

theorem rounds_of_nearest? {negative : Bool} (hden : 0 < den)
    (h : nearest? negative num den = some d) : d.Rounds (num / den) := by
  obtain ⟨c, -, hc, rfl⟩ := nearest?_eq_some h
  obtain ⟨hhalf, hfine⟩ := hc.rounds hden
  rw [← magnitude_normalize c] at hhalf hfine
  exact ⟨hhalf, hfine⟩

theorem rounds_of_mul? (h : a.mul? b = some d) : d.Rounds (a.magnitude * b.magnitude) := by
  have hrounds := rounds_of_nearest? (tenPow_pos (a.scale + b.scale)) h
  have hexact : ((a.mantissa * b.mantissa : Nat) : ℚ) / tenPow (a.scale + b.scale) =
      a.magnitude * b.magnitude := by
    unfold magnitude
    rw [tenPow_add, Nat.cast_mul, Nat.cast_mul, mul_div_mul_comm]
  rwa [hexact] at hrounds

theorem rounds_of_div? (h : a.div? b = some d) : d.Rounds (a.magnitude / b.magnitude) := by
  have hpos := pos_of_div? h
  rw [div?_of_pos hpos] at h
  have hrounds := rounds_of_nearest? (Nat.mul_pos hpos (tenPow_pos a.scale)) h
  have hexact : ((a.mantissa * tenPow b.scale : Nat) : ℚ) / (b.mantissa * tenPow a.scale : Nat) =
      a.magnitude / b.magnitude := by
    unfold magnitude
    rw [div_div_div_eq, Nat.cast_mul, Nat.cast_mul, mul_comm (b.mantissa : ℚ)]
  rwa [hexact] at hrounds

/-- **What an error is worth in front of a debt.** A number that is multiplied by a factor of at
most `2 ^ 96` is replaced by the decimal that it was rounded to. The product is off by little more
than five units, as long as it hardly exceeds `2 ^ 96` itself. -/
theorem Rounds.amplified (h : d.Rounds x) {factor : ℚ} (hnonneg : 0 ≤ factor)
    (hfactor : factor ≤ 2 ^ 96) (hproduct : factor * d.magnitude ≤ 2 ^ 96 + 16) :
    |factor * d.magnitude - factor * x| ≤ 51 / 10 := by
  rw [← mul_sub, abs_mul, abs_of_nonneg hnonneg]
  rcases le_max_iff.1 h.fine with hplaces | hpart
  · calc factor * |d.magnitude - x| ≤ 2 ^ 96 * (1 / 2 / 10 ^ 28) :=
          mul_le_mul hfactor hplaces (abs_nonneg _) (by positivity)
      _ ≤ 51 / 10 := by norm_num
  · calc factor * |d.magnitude - x| ≤ factor * (5 / 2 ^ 96 * d.magnitude) :=
          mul_le_mul_of_nonneg_left hpart hnonneg
      _ = 5 / 2 ^ 96 * (factor * d.magnitude) := mul_left_comm ..
      _ ≤ 5 / 2 ^ 96 * (2 ^ 96 + 16) := mul_le_mul_of_nonneg_left hproduct (by positivity)
      _ ≤ 51 / 10 := by norm_num

end Decimal

/-- A product of an amount is rounded to a decimal, of which the digits before the point are
kept. -/
theorem Amount.times_rounds {a x : Amount} {factor : Decimal} (h : a.times factor = .ok x) :
    ∃ d : Decimal, d.Rounds (a.units * factor.magnitude) ∧ (x.units : ℤ) = ⌊d.magnitude⌋ := by
  obtain ⟨c, hc, hx⟩ := times_eq_ok h
  have hrounds := hc.rounds (tenPow_pos factor.scale)
  rw [Nat.cast_mul, mul_div_assoc] at hrounds
  exact ⟨c, hrounds, by rw [Decimal.floor_magnitude, hx]⟩

/-- An amount that is multiplied is a decimal first. -/
theorem Amount.units_lt_of_times {a x : Amount} {factor : Decimal} (h : a.times factor = .ok x) :
    a.units < 2 ^ 96 := by
  obtain ⟨d, hd, -⟩ := except_bind_eq_ok.1 h
  obtain ⟨-, hmantissa, -⟩ := toDecimal_eq_ok hd
  rw [← hmantissa]
  exact d.mantissa_lt

/-! ## Interest -/

/-- The interest on a debt without any rounding. -/
def exactInterest (debt : Amount) (rate : Decimal) (elapsed : UInt64) : ℚ :=
  debt.units * rate.value * elapsed.toNat / 31536000

/-- Numbers that are `n` apart have whole parts that are no further apart. -/
theorem abs_floor_sub_floor_le {x y : ℚ} {n : ℤ} (h : |x - y| ≤ n) : |⌊x⌋ - ⌊y⌋| ≤ n := by
  obtain ⟨hlow, hhigh⟩ := abs_le.1 h
  have hup : ⌊x⌋ ≤ ⌊y⌋ + n := by
    rw [← Int.floor_add_intCast]
    apply Int.floor_mono
    linarith
  have hdown : ⌊y⌋ ≤ ⌊x⌋ + n := by
    rw [← Int.floor_add_intCast]
    apply Int.floor_mono
    linarith
  rw [abs_le]
  constructor
  · linarith
  · linarith

/-- What is due before the fraction is dropped is within eleven units of the exact interest. -/
theorem exists_near_exactInterest {debt due : Amount} {rate scaled part : Decimal}
    {elapsed : UInt64} (hsign : rate.negative = false)
    (hscaled : rate.mul? (.ofUInt64 elapsed) = some scaled)
    (hpart : scaled.div? (.ofUInt64 secondsPerYear) = some part)
    (hdue : debt.times part = .ok due) :
    ∃ x : ℚ, (due.units : ℤ) = ⌊x⌋ ∧ |x - exactInterest debt rate elapsed| ≤ 11 := by
  obtain ⟨product, hproduct, hfloor⟩ := Amount.times_rounds hdue
  refine ⟨product.magnitude, hfloor, ?_⟩
  have hmultiple := Decimal.rounds_of_mul? hscaled
  have hquotient := Decimal.rounds_of_div? hpart
  rw [Decimal.magnitude_ofUInt64] at hmultiple hquotient
  have hyear : secondsPerYear.toNat = 31536000 := rfl
  rw [hyear, Nat.cast_ofNat] at hquotient
  have hdebt : (debt.units : ℚ) ≤ 2 ^ 96 := by
    exact_mod_cast (Amount.units_lt_of_times hdue).le
  have hnonneg : (0 : ℚ) ≤ debt.units := Nat.cast_nonneg _
  -- the product is a decimal, which bounds every earlier result in front of the debt
  obtain ⟨hproductLow, hproductHigh⟩ := abs_le.1 hproduct.half
  have hbound := product.magnitude_lt
  have hthird : |debt.units * part.magnitude - debt.units * (scaled.magnitude / 31536000)| ≤
      51 / 10 := hquotient.amplified hnonneg hdebt (by linarith)
  obtain ⟨hthirdLow, hthirdHigh⟩ := abs_le.1 hthird
  have hsecond : |debt.units / 31536000 * scaled.magnitude -
      debt.units / 31536000 * (rate.magnitude * elapsed.toNat)| ≤ 51 / 10 :=
    hmultiple.amplified (by positivity) (by linarith) (by linarith)
  obtain ⟨hsecondLow, hsecondHigh⟩ := abs_le.1 hsecond
  have hexact : exactInterest debt rate elapsed =
      debt.units / 31536000 * (rate.magnitude * elapsed.toNat) := by
    unfold exactInterest
    rw [Decimal.value_eq_magnitude hsign]
    ring
  rw [hexact, abs_le]
  constructor
  · linarith
  · linarith

/-- **Interest is precise to eleven units.** What falls due at a positive rate is no further than
that from the exact interest with its fraction dropped, over all debts, rates and times. -/
theorem interest_is_precise {debt due : Amount} {rate : Decimal} {elapsed : UInt64}
    (hrate : .zero < rate) (h : interestDue debt rate elapsed = .ok due) :
    |(due.units : ℤ) - ⌊exactInterest debt rate elapsed⌋| ≤ 11 := by
  have hpositive : ¬ rate ≤ .zero := Decimal.not_le.2 hrate
  rcases interestDue_eq_ok h with ⟨hnothing, rfl⟩ | ⟨-, part, scaled, hmul, hdiv, hdue⟩
  · have hexact : exactInterest debt rate elapsed = 0 := by
      unfold exactInterest
      rcases hnothing with hzero | htime | hnone
      · rw [Amount.isZero_iff.1 hzero]
        simp
      · rw [htime]
        simp
      · exact absurd hnone hpositive
    rw [hexact, Int.floor_zero, sub_zero]
    show |((0 : Nat) : ℤ)| ≤ 11
    simp
  · obtain ⟨x, hx, hnear⟩ :=
      exists_near_exactInterest (Decimal.negative_eq_false hpositive) hmul hdiv hdue
    rw [hx]
    exact abs_floor_sub_floor_le (by exact_mod_cast hnear)

/-- Seven hours at a rate of 22 places on the largest debt cost four units less than they should. -/
theorem seven_hours_on_largest_debt :
    let debt : Amount := { units := 79228162514264337593543950335 }
    let rate : Decimal := { negative := false, mantissa := 5, scale := 22 }
    .zero < rate ∧ interestDue debt rate 25200 = .ok { units := 31651 } ∧
      ⌊exactInterest debt rate 25200⌋ = 31655 ∧
      |(31651 : ℤ) - ⌊exactInterest debt rate 25200⌋| ≤ 11 := by
  intro debt rate
  have hrate : .zero < rate := by decide
  have hdue : interestDue debt rate 25200 = .ok { units := 31651 } := by decide +kernel
  have hseconds : (25200 : UInt64).toNat = 25200 := rfl
  have hexact : ⌊exactInterest debt rate 25200⌋ = 31655 := by
    rw [Int.floor_eq_iff, exactInterest, hseconds]
    norm_num [Decimal.value, Decimal.signed, tenPow, debt, rate]
  exact ⟨hrate, hdue, hexact, interest_is_precise hrate hdue⟩

end LeveragedLp

import LeveragedLp.Proofs.LedgerForm

/-!
# What multiplying and truncating comes to

An amount times a decimal is rounded before its fraction is dropped: a tie to even, at the most
places, of up to 28, that keep the digits below `2 ^ 96` (`FinestPlaces`). There is no product
where not even the whole part keeps below it, or where the exact product is negative
(`Amount.times_of_overflow`, `Amount.times_of_fits`). Rounding never takes the product below a
whole number that it reaches, nor beyond the next one, so that what is left of it is the whole part
of the exact product or one more (`Decimal.Nearest.whole_bounds`); and it is exact where the digits
of the exact product keep below `2 ^ 96` (`Decimal.Nearest.whole_of_exact`).
-/

set_option autoImplicit false

namespace LeveragedLp

/-! ## Rounding a rational number -/

/-- The whole number nearest to a number, a tie to the even one. -/
def halfEven (x : ℚ) : ℤ :=
  if Int.fract x < 1 / 2 ∨ (Int.fract x = 1 / 2 ∧ Even ⌊x⌋) then ⌊x⌋ else ⌊x⌋ + 1

/-- The most places, of up to 28, at which the digits of a rounded number keep below `2 ^ 96`. -/
structure FinestPlaces (x : ℚ) (k : Nat) : Prop where
  le : k ≤ 28
  fits : halfEven (x * 10 ^ k) < 2 ^ 96
  full : k < 28 → 2 ^ 96 ≤ halfEven (x * 10 ^ (k + 1))

/-- The fraction of a quotient is the remainder over the divisor. -/
theorem fract_natCast_div (num : Nat) {den : Nat} (hden : 0 < den) :
    Int.fract ((num : ℚ) / den) = (num % den : Nat) / den := by
  have hpos : (den : ℚ) ≠ 0 := by exact_mod_cast hden.ne'
  have hsplit : (den : ℚ) * (num / den : Nat) + (num % den : Nat) = num := by
    exact_mod_cast Nat.div_add_mod num den
  have hfloor : ((⌊(num : ℚ) / den⌋ : ℤ) : ℚ) = (num / den : Nat) := by
    rw [Rat.floor_natCast_div_natCast]
    rfl
  rw [Int.fract, hfloor]
  field_simp
  linarith

/-- Rounding a quotient of natural numbers is the rounding of the exact quotient. -/
theorem roundHalfEven_eq_halfEven (num : Nat) {den : Nat} (hden : 0 < den) :
    (roundHalfEven num den : ℤ) = halfEven (num / den) := by
  have hpos : (0 : ℚ) < den := by exact_mod_cast hden
  have hbelow : ((num % den : Nat) : ℚ) / den < 1 / 2 ↔ 2 * (num % den) < den := by
    rw [div_lt_div_iff₀ hpos two_pos, one_mul, mul_comm]
    exact_mod_cast Iff.rfl
  have htie : ((num % den : Nat) : ℚ) / den = 1 / 2 ↔ 2 * (num % den) = den := by
    rw [div_eq_div_iff hpos.ne' two_ne_zero, one_mul, mul_comm]
    exact_mod_cast Iff.rfl
  have heven : Even ((num / den : Nat) : ℤ) ↔ num / den % 2 = 0 := by
    rw [Int.even_coe_nat, Nat.even_iff]
  unfold roundHalfEven halfEven
  have hfloor : ⌊(num : ℚ) / den⌋ = ((num / den : Nat) : ℤ) := Rat.floor_natCast_div_natCast ..
  simp only [fract_natCast_div num hden, hfloor, hbelow, htie, heven]
  split
  · rfl
  · rfl

namespace Decimal

variable {num den : Nat} {c t : Decimal}

/-! ## The decimal that a quotient is rounded to -/

/-- There is one if the quotient fits when it is rounded to a whole number, and only then. -/
theorem isSome_nearest?_iff (negative : Bool) (hden : 0 < den) :
    (nearest? negative num den).isSome ↔ roundHalfEven num den < twoPow 96 := by
  constructor
  · intro hsome
    obtain ⟨d, hd⟩ := Option.isSome_iff_exists.1 hsome
    obtain ⟨c, -, hc, -⟩ := nearest?_eq_some hd
    exact hc.fits hden
  · intro hfits
    rw [nearest?, Option.isSome_map]
    exact isSome_nearestFrom negative (Nat.le_refl 28) hfits

namespace Nearest

/-- A decimal is not rounded to zero unless it is zero: all its places are there, or else the
mantissa is full. -/
theorem mantissa_eq_zero_iff {scale : Nat} (hscale : scale ≤ 28)
    (hc : Nearest num (tenPow scale) c) : c.mantissa = 0 ↔ num = 0 := by
  have hden := tenPow_pos scale
  constructor
  · intro hzero
    by_contra hnum
    rcases Nat.lt_or_ge c.scale 28 with hless | hall
    · have hroom := hc.no_room hden hless
      rw [hzero] at hroom
      exact absurd hroom (by decide)
    · have hplaces : tenPow scale ≤ tenPow c.scale :=
        Nat.pow_le_pow_right (by decide) (Nat.le_trans hscale hall)
      have hreach : num ≤ c.mantissa := by
        rw [hc.mantissa_eq]
        exact le_roundHalfEven hden (Nat.mul_le_mul_left num hplaces)
      omega
  · intro hnum
    have hnone : c.mantissa ≤ 0 := by
      rw [hc.mantissa_eq, hnum]
      exact roundHalfEven_le hden (by simp)
    exact Nat.le_zero.1 hnone

/-- Rounding keeps the whole part, or takes the number up to the next whole one. -/
theorem whole_bounds (hden : 0 < den) (hc : Nearest num den c) :
    num / den ≤ c.whole ∧ c.whole ≤ num / den + 1 := by
  have hten := tenPow_pos c.scale
  constructor
  · -- the whole part is reached, and it is on every grid
    rw [whole, Nat.le_div_iff_mul_le hten, hc.mantissa_eq]
    apply le_roundHalfEven hden
    calc num / den * tenPow c.scale * den = num / den * den * tenPow c.scale :=
          Nat.mul_right_comm ..
      _ ≤ num * tenPow c.scale := Nat.mul_le_mul_right _ (Nat.div_mul_le_self num den)
  · -- so is the next whole number, which bounds the quotient
    have hnext : num ≤ (num / den + 1) * den := by
      rw [Nat.mul_comm]
      exact Nat.le_of_lt (Nat.lt_mul_div_succ num hden)
    have hmantissa : c.mantissa ≤ (num / den + 1) * tenPow c.scale := by
      rw [hc.mantissa_eq]
      apply roundHalfEven_le hden
      calc num * tenPow c.scale ≤ (num / den + 1) * den * tenPow c.scale :=
            Nat.mul_le_mul_right _ hnext
        _ = (num / den + 1) * tenPow c.scale * den := Nat.mul_right_comm ..
    exact Nat.div_le_of_le_mul (by rwa [Nat.mul_comm])

/-- What is a decimal already is not changed by rounding. -/
theorem whole_of_exact (hc : Nearest t.mantissa (tenPow t.scale) c) : c.whole = t.whole := by
  have hten := tenPow_pos t.scale
  exact Nat.le_antisymm (whole_le_whole (hc.le_of_quotient_le hten (Nat.le_refl _)))
    (whole_le_whole (hc.ge_of_quotient_ge hten (Nat.le_refl _)))

/-- The scale is the finest at which the exact quotient has room. -/
theorem finestPlaces (hden : 0 < den) (hc : Nearest num den c) :
    FinestPlaces (num / den) c.scale ∧
      (c.mantissa : ℤ) = halfEven ((num : ℚ) / den * 10 ^ c.scale) := by
  have hplaces (k : Nat) : (roundHalfEven (num * tenPow k) den : ℤ) =
      halfEven ((num : ℚ) / den * 10 ^ k) := by
    have hten : ((tenPow k : Nat) : ℚ) = 10 ^ k := Nat.cast_pow 10 k
    rw [roundHalfEven_eq_halfEven _ hden, Nat.cast_mul, hten, mul_div_right_comm]
  have hmantissa : (c.mantissa : ℤ) = halfEven ((num : ℚ) / den * 10 ^ c.scale) := by
    rw [hc.mantissa_eq, hplaces]
  refine ⟨⟨c.scale_le, ?_, fun hless => ?_⟩, hmantissa⟩
  · rw [← hmantissa]
    exact_mod_cast c.mantissa_lt
  · rw [← hplaces]
    exact_mod_cast hc.finest hless

end Nearest

/-- A normalized decimal is negative where its number is. -/
theorem negative_normalize (d : Decimal) :
    (d.normalize.negative && !d.normalize.isZero) = (d.negative && d.mantissa != 0) := by
  have hvalue : d.normalize.mantissa * tenPow d.scale = d.mantissa * tenPow d.normalize.scale :=
    stripZeros_value d.mantissa d.scale
  by_cases hzero : d.mantissa = 0
  · simp [normalize, hzero]
  · have hnormal : d.normalize.mantissa ≠ 0 := by
      intro h0
      rw [h0, Nat.zero_mul, eq_comm, Nat.mul_eq_zero] at hvalue
      exact hvalue.elim hzero (tenPow_pos _).ne'
    have hsign : d.normalize.negative = (d.negative && d.mantissa != 0) := rfl
    simp [hsign, isZero, hnormal]

end Decimal

namespace Amount

variable {a x : Amount} {f : Decimal}

/-! ## When there is a product -/

/-- An amount of 96 bits is multiplied as the decimal that it is. -/
theorem times_of_lt (ha : a.units < twoPow 96) :
    a.times f = orFault (.overflow "amount multiplication")
      (Decimal.nearest? f.negative (a.units * f.mantissa) (tenPow f.scale)) >>= ofDecimal := by
  obtain ⟨d, hd⟩ := isOk_toDecimal ha
  obtain ⟨hsign, hmantissa, hscale⟩ := toDecimal_eq_ok hd
  have hmul : d.mul? f =
      Decimal.nearest? f.negative (a.units * f.mantissa) (tenPow f.scale) := by
    rw [Decimal.mul?, hsign, hmantissa, hscale, Nat.zero_add, Bool.false_bne]
  rw [times, hd, ← hmul]
  exact pure_bind d _

/-- A larger amount is no decimal. -/
theorem times_of_large (ha : twoPow 96 ≤ a.units) :
    a.times f = .error (.overflow "amount exceeds decimal range") := by
  have hnone : a.toDecimal? = none := by
    rw [← Option.not_isSome_iff_eq_none]
    intro hsome
    have hlt := (Decimal.isSome_ofParts? false (Nat.zero_le 28)).1 hsome
    omega
  have hdecimal : a.toDecimal = .error (.overflow "amount exceeds decimal range") := by
    rw [toDecimal, hnone, orFault_none]
  rw [times, hdecimal]
  rfl

/-- A product that has no room, rounded to whole units, is refused, whatever its sign. -/
theorem times_of_overflow (ha : a.units < twoPow 96)
    (hover : twoPow 96 ≤ roundHalfEven (a.units * f.mantissa) (tenPow f.scale)) :
    a.times f = .error (.overflow "amount multiplication") := by
  have hnone : Decimal.nearest? f.negative (a.units * f.mantissa) (tenPow f.scale) = none := by
    rw [← Option.not_isSome_iff_eq_none, Decimal.isSome_nearest?_iff f.negative (tenPow_pos _)]
    omega
  rw [times_of_lt ha, hnone, orFault_none]
  rfl

/-- One that has room is cut down to whole units, unless it is negative. -/
theorem times_of_fits (ha : a.units < twoPow 96)
    (hfits : roundHalfEven (a.units * f.mantissa) (tenPow f.scale) < twoPow 96) :
    ∃ c, Decimal.Nearest (a.units * f.mantissa) (tenPow f.scale) c ∧
      a.times f = if f.negative ∧ a.units * f.mantissa ≠ 0
        then .error (.overflow "negative amount") else .ok (ofWhole c.normalize) := by
  obtain ⟨d, hd⟩ := Option.isSome_iff_exists.1
    ((Decimal.isSome_nearest?_iff f.negative (tenPow_pos f.scale)).2 hfits)
  obtain ⟨c, hsign, hc, rfl⟩ := Decimal.nearest?_eq_some hd
  refine ⟨c, hc, ?_⟩
  have hzero := hc.mantissa_eq_zero_iff f.scale_le
  have hcut : a.times f = ofDecimal c.normalize := by
    rw [times_of_lt ha, hd, orFault_some]
    exact pure_bind c.normalize _
  rw [hcut, ofDecimal, Decimal.negative_normalize, hsign]
  simp [hzero]

/-! ## The exact product -/

/-- The exact product, its sign disregarded, is the quotient that is rounded. -/
theorem units_mul_magnitude (a : Amount) (f : Decimal) :
    a.units * f.magnitude = (a.units * f.mantissa : Nat) / tenPow f.scale := by
  rw [Decimal.magnitude, Nat.cast_mul, mul_div_assoc]

theorem units_mul_value (a : Amount) (f : Decimal) :
    a.units * f.value = (if f.negative then -1 else 1) * (a.units * f.magnitude) := by
  rw [Decimal.value_eq_sign_mul]
  ring

/-- The exact product is negative if the factor is, and nothing is zero. -/
theorem units_mul_value_neg_iff :
    a.units * f.value < 0 ↔ f.negative = true ∧ a.units * f.mantissa ≠ 0 := by
  have hten := Decimal.tenPow_cast_pos f.scale
  have hpos : 0 < a.units * f.magnitude ↔ a.units * f.mantissa ≠ 0 := by
    rw [units_mul_magnitude, div_pos_iff_of_pos_right hten, Nat.cast_pos, Nat.pos_iff_ne_zero]
  have hnonneg : 0 ≤ a.units * f.magnitude :=
    mul_nonneg (Nat.cast_nonneg _) f.magnitude_nonneg
  rw [units_mul_value]
  cases f.negative with
  | false => simpa using hnonneg
  | true => simpa using hpos

theorem units_mul_value_of_nonneg (h : ¬ a.units * f.value < 0) :
    a.units * f.value = (a.units * f.mantissa : Nat) / tenPow f.scale := by
  rw [units_mul_value_neg_iff, not_and_not_right] at h
  rw [units_mul_value, ← units_mul_magnitude]
  cases hsign : f.negative with
  | false => simp
  | true => simp [units_mul_magnitude, h hsign]

theorem round_units_mul_value (h : ¬ a.units * f.value < 0) :
    (roundHalfEven (a.units * f.mantissa) (tenPow f.scale) : ℤ) =
      halfEven (a.units * f.value) := by
  rw [roundHalfEven_eq_halfEven _ (tenPow_pos f.scale), units_mul_value_of_nonneg h]

/-- There is a product for an amount of 96 bits, where the exact one is not negative and has room
when it is rounded to whole units. -/
theorem times_isOk_iff :
    (∃ x, a.times f = .ok x) ↔
      a.units < 2 ^ 96 ∧ ¬ a.units * f.value < 0 ∧ halfEven (a.units * f.value) < 2 ^ 96 := by
  constructor
  · rintro ⟨x, hx⟩
    have ha : a.units < twoPow 96 := by
      by_contra hlarge
      rw [times_of_large (Nat.le_of_not_lt hlarge)] at hx
      cases hx
    have hfits : roundHalfEven (a.units * f.mantissa) (tenPow f.scale) < twoPow 96 := by
      by_contra hover
      rw [times_of_overflow ha (Nat.le_of_not_lt hover)] at hx
      cases hx
    have hsign : ¬ a.units * f.value < 0 := by
      intro hneg
      obtain ⟨c, -, htimes⟩ := times_of_fits ha hfits
      rw [htimes, if_pos (units_mul_value_neg_iff.1 hneg)] at hx
      cases hx
    refine ⟨ha, hsign, ?_⟩
    rw [← round_units_mul_value hsign]
    exact_mod_cast hfits
  · rintro ⟨ha, hsign, hfits⟩
    rw [← round_units_mul_value hsign] at hfits
    obtain ⟨c, -, htimes⟩ := times_of_fits ha (by exact_mod_cast hfits)
    rw [if_neg (units_mul_value_neg_iff.not.1 hsign)] at htimes
    exact ⟨_, htimes⟩

/-- **What an amount times a decimal comes to.** There is no product where the amount is no
decimal, where the exact product is negative, and where it does not keep below `2 ^ 96` when it is
rounded to a whole number. Everywhere else the result is the whole part of the exact product, or
one more: it is the whole part of the product rounded at the most places that it has room for. So
it is never too small, and it is exact where the digits of the exact product have room. -/
theorem times_is_floor_or_next (a : Amount) (f : Decimal) :
    ((∃ fault, a.times f = .error fault) ↔
      2 ^ 96 ≤ a.units ∨ a.units * f.value < 0 ∨ 2 ^ 96 ≤ halfEven (a.units * f.value)) ∧
    ∀ x, a.times f = .ok x →
      ((x.units : ℤ) = ⌊a.units * f.value⌋ ∨ (x.units : ℤ) = ⌊a.units * f.value⌋ + 1) ∧
      (a.units * f.mantissa < 2 ^ 96 → (x.units : ℤ) = ⌊a.units * f.value⌋) ∧
      ∃ k, FinestPlaces (a.units * f.value) k ∧
        (x.units : ℤ) = ⌊(halfEven (a.units * f.value * 10 ^ k) : ℚ) / 10 ^ k⌋ := by
  constructor
  · have hrefused : (∃ fault, a.times f = .error fault) ↔ ¬ ∃ x, a.times f = .ok x := by
      cases a.times f with
      | error fault => simp
      | ok x => simp
    rw [hrefused, times_isOk_iff]
    constructor
    · intro h
      by_contra hnone
      simp only [not_or, not_le] at hnone
      exact h hnone
    · rintro (hlarge | hneg | hover) ⟨ha, hsign, hfits⟩
      · exact absurd hlarge (Nat.not_le.2 ha)
      · exact hsign hneg
      · exact absurd hover (not_le.2 hfits)
  · intro x hx
    have hsign := (times_isOk_iff.1 ⟨x, hx⟩).2.1
    have hten := tenPow_pos f.scale
    obtain ⟨c, hc, hwhole⟩ := times_eq_ok hx
    have hfloor : ⌊a.units * f.value⌋ = ((a.units * f.mantissa / tenPow f.scale : Nat) : ℤ) := by
      rw [units_mul_value_of_nonneg hsign]
      exact Rat.floor_natCast_div_natCast ..
    rw [hfloor, hwhole]
    refine ⟨?_, ?_, c.scale, ?_⟩
    · obtain ⟨hlow, hhigh⟩ := hc.whole_bounds hten
      omega
    · intro hroom
      let t : Decimal := ⟨false, a.units * f.mantissa, f.scale, hroom, f.scale_le⟩
      exact congrArg Nat.cast (Decimal.Nearest.whole_of_exact (t := t) hc)
    · obtain ⟨hplaces, hmantissa⟩ := hc.finestPlaces hten
      rw [← units_mul_value_of_nonneg hsign] at hplaces hmantissa
      refine ⟨hplaces, ?_⟩
      have hpow : (10 : ℚ) ^ c.scale = (tenPow c.scale : Nat) := (Nat.cast_pow 10 c.scale).symm
      rw [← hmantissa, hpow, Int.cast_natCast, Rat.floor_natCast_div_natCast]
      rfl

/-- A number just below three has 28 places, three times as much has one place less: the product is
rounded up, and its whole part is one more than that of the exact product. -/
theorem three_times_just_below_three :
    let f : Decimal := { negative := false, mantissa := 29999999999999999999999999999, scale := 28 }
    let three : Amount := { units := 3 }
    three.times f = .ok { units := 9 } ∧ ⌊three.units * f.value⌋ = 8 ∧
      ((9 : ℤ) = ⌊three.units * f.value⌋ ∨ (9 : ℤ) = ⌊three.units * f.value⌋ + 1) := by
  intro f three
  have hproduct : three.times f = .ok { units := 9 } := by decide +kernel
  have hexact : ⌊three.units * f.value⌋ = 8 := by
    rw [Int.floor_eq_iff]
    norm_num [Decimal.value, Decimal.signed, tenPow, f, three]
  exact ⟨hproduct, hexact, ((times_is_floor_or_next three f).2 _ hproduct).1⟩

end Amount

end LeveragedLp

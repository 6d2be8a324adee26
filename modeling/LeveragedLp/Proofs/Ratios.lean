import LeveragedLp.Checked
import LeveragedLp.Proofs.Rounding
import Mathlib.Tactic.Positivity

/-!
# Ratios and products of amounts

A ratio and a product are rounded to a decimal, the product is then cut down to whole units. What
rounding keeps is said here of the amounts: a ratio is on the same side of every decimal as the
exact quotient (`Amount.ratio_le`, `Amount.le_ratio`), and a larger amount has no smaller product
(`Amount.times_mono`).
-/

set_option autoImplicit false

namespace LeveragedLp

namespace Amount

variable {a b x y : Amount} {d t : Decimal}

theorem toDecimal_eq_ok (h : a.toDecimal = .ok d) :
    d.negative = false ∧ d.mantissa = a.units ∧ d.scale = 0 :=
  Decimal.ofParts?_eq_some (orFault_eq_ok.1 h)

/-- An amount of 96 bits is a decimal. -/
theorem isOk_toDecimal (h : a.units < twoPow 96) : ∃ d, a.toDecimal = .ok d := by
  obtain ⟨d, hd⟩ := Option.isSome_iff_exists.1
    ((Decimal.isSome_ofParts? false (Nat.zero_le 28)).2 h)
  exact ⟨d, orFault_eq_ok.2 hd⟩

theorem ratio_eq_ok (h : a.ratio b = .ok d) :
    0 < b.units ∧ ∃ c, c.negative = false ∧ Decimal.Nearest a.units b.units c ∧
      d = c.normalize := by
  unfold ratio at h
  obtain ⟨hzero, h⟩ := refuse_bind_eq_ok.1 h
  obtain ⟨num, hnum, h⟩ := except_bind_eq_ok.1 h
  obtain ⟨den, hden, h⟩ := except_bind_eq_ok.1 h
  obtain ⟨hnegNum, hnum, hscaleNum⟩ := toDecimal_eq_ok hnum
  obtain ⟨hnegDen, hden, hscaleDen⟩ := toDecimal_eq_ok hden
  have hpos : 0 < b.units := Nat.pos_of_ne_zero fun h0 => hzero (isZero_iff.2 h0)
  have hquotient := orFault_eq_ok.1 h
  rw [Decimal.div?_of_pos (by rwa [hden]), hnegNum, hnegDen, hnum, hden, hscaleNum, hscaleDen,
    tenPow_zero, Nat.mul_one, Nat.mul_one] at hquotient
  exact ⟨hpos, Decimal.nearest?_eq_some hquotient⟩

/-- There is no ratio where an amount is too large for a decimal, or the divisor is zero. -/
theorem ratio_eq_error {fault : Fault} (h : a.ratio b = .error fault) :
    ∃ quantity, fault = .overflow quantity := by
  unfold ratio at h
  split at h
  · exact ⟨_, (Except.error.inj h).symm⟩
  · rcases except_bind_eq_error.1 h with h | ⟨num, -, h⟩
    · exact ⟨_, orFault_eq_error h⟩
    · rcases except_bind_eq_error.1 h with h | ⟨den, -, h⟩
      · exact ⟨_, orFault_eq_error h⟩
      · exact ⟨_, orFault_eq_error h⟩

/-- Two amounts of 96 bits have a ratio, and no others have. -/
theorem ratio_isOk_iff :
    (∃ d, a.ratio b = .ok d) ↔ 0 < b.units ∧ a.units < twoPow 96 ∧ b.units < twoPow 96 := by
  constructor
  · rintro ⟨d, h⟩
    have hpos := (ratio_eq_ok h).1
    unfold ratio at h
    obtain ⟨-, h⟩ := refuse_bind_eq_ok.1 h
    obtain ⟨num, hnum, h⟩ := except_bind_eq_ok.1 h
    obtain ⟨den, hden, -⟩ := except_bind_eq_ok.1 h
    have ha := num.mantissa_lt
    have hb := den.mantissa_lt
    rw [(toDecimal_eq_ok hnum).2.1] at ha
    rw [(toDecimal_eq_ok hden).2.1] at hb
    exact ⟨hpos, ha, hb⟩
  · rintro ⟨hpos, ha, hb⟩
    obtain ⟨num, hnum⟩ := isOk_toDecimal ha
    obtain ⟨den, hden⟩ := isOk_toDecimal hb
    obtain ⟨hnegNum, hmantissaNum, hscaleNum⟩ := toDecimal_eq_ok hnum
    obtain ⟨hnegDen, hmantissaDen, hscaleDen⟩ := toDecimal_eq_ok hden
    have hfits : roundHalfEven a.units b.units < twoPow 96 :=
      Nat.lt_of_le_of_lt (roundHalfEven_le hpos (Nat.le_mul_of_pos_right _ hpos)) ha
    obtain ⟨c, hc⟩ := Option.isSome_iff_exists.1
      (Decimal.isSome_nearestFrom false (Nat.le_refl 28) hfits)
    have hzero : b.isZero = false := by
      rw [← Bool.not_eq_true, isZero_iff]
      omega
    have hden0 : den.isZero = false := by
      rw [← hzero, isZero, ← hmantissaDen, Decimal.isZero]
    refine ⟨c.normalize, ?_⟩
    simp [ratio, hzero, hnum, hden, Decimal.div?, hden0, Decimal.nearest?, hnegNum, hnegDen,
      hmantissaNum, hmantissaDen, hscaleNum, hscaleDen, tenPow_zero, hc, bind, Except.bind]

/-- A ratio does not go beyond a decimal that bounds the quotient. -/
theorem ratio_le (h : a.ratio b = .ok d)
    (hle : (a.units : Int) * tenPow t.scale ≤ t.signed * b.units) : d ≤ t := by
  obtain ⟨hpos, c, hsign, hc, rfl⟩ := ratio_eq_ok h
  have hpos' : (0 : Int) ≤ a.units * tenPow t.scale := by positivity
  rcases t.signed_cases with ht | ht
  · rw [ht] at hle
    have hbound := hc.le_of_quotient_le hpos (by exact_mod_cast hle)
    refine Decimal.le_trans c.normalize_le ?_
    show c.signed * tenPow t.scale ≤ t.signed * tenPow c.scale
    rw [ht, Decimal.signed_of_not_negative hsign]
    exact_mod_cast hbound
  · have hneg : t.signed * b.units < 0 := mul_neg_of_neg_of_pos ht (by exact_mod_cast hpos)
    omega

/-- Nor does it stay below a decimal that the quotient reaches. -/
theorem le_ratio (h : a.ratio b = .ok d)
    (hle : t.signed * b.units ≤ (a.units : Int) * tenPow t.scale) : t ≤ d := by
  obtain ⟨hpos, c, hsign, hc, rfl⟩ := ratio_eq_ok h
  refine Decimal.le_trans ?_ c.le_normalize
  show t.signed * tenPow c.scale ≤ c.signed * tenPow t.scale
  rw [Decimal.signed_of_not_negative hsign]
  rcases t.signed_cases with ht | ht
  · rw [ht] at hle ⊢
    exact_mod_cast hc.ge_of_quotient_ge hpos (by exact_mod_cast hle)
  · have hneg : t.signed * tenPow c.scale ≤ 0 :=
      Int.mul_nonpos_of_nonpos_of_nonneg (Int.le_of_lt ht) (by positivity)
    have hnonneg : (0 : Int) ≤ c.mantissa * tenPow t.scale := by positivity
    omega

/-- The ratio of an amount to one that is not smaller lies between zero and one. -/
theorem ratio_mem_unit (hle : a.units ≤ b.units) (h : a.ratio b = .ok d) :
    Decimal.zero ≤ d ∧ d ≤ Decimal.one := by
  constructor
  · apply le_ratio h
    show 0 * (b.units : Int) ≤ a.units * tenPow 0
    rw [Int.zero_mul]
    positivity
  · apply ratio_le h
    show (a.units : Int) * tenPow 0 ≤ 1 * b.units
    rw [tenPow_zero]
    omega

/-! ### Products -/

theorem times_eq_ok {factor : Decimal} (h : a.times factor = .ok x) :
    ∃ c, Decimal.Nearest (a.units * factor.mantissa) (tenPow factor.scale) c ∧
      x.units = c.whole := by
  obtain ⟨d, hd, h⟩ := except_bind_eq_ok.1 h
  obtain ⟨product, hproduct, h⟩ := except_bind_eq_ok.1 h
  obtain ⟨-, hmantissa, hscale⟩ := toDecimal_eq_ok hd
  have hproduct := orFault_eq_ok.1 hproduct
  unfold Decimal.mul? at hproduct
  rw [hmantissa, hscale, Nat.zero_add] at hproduct
  obtain ⟨c, -, hc, rfl⟩ := Decimal.nearest?_eq_some hproduct
  refine ⟨c, hc, ?_⟩
  unfold ofDecimal at h
  split at h
  · cases h
  · cases h
    exact c.whole_normalize

/-- **Of two amounts the larger has no smaller product**, though it may be rounded at another
scale. -/
theorem times_mono {factor : Decimal} (hle : a.units ≤ b.units) (ha : a.times factor = .ok x)
    (hb : b.times factor = .ok y) : x.units ≤ y.units := by
  obtain ⟨c, hc, hx⟩ := times_eq_ok ha
  obtain ⟨d, hd, hy⟩ := times_eq_ok hb
  rw [hx, hy]
  apply Decimal.whole_le_whole
  apply hc.mono (tenPow_pos _) (tenPow_pos _) hd
  exact Nat.mul_le_mul_right _ (Nat.mul_le_mul_right _ hle)

end Amount

end LeveragedLp

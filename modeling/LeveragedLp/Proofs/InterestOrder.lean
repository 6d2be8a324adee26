import LeveragedLp.Proofs.Compounding

/-!
# More debt, a higher rate, a longer time

Interest is found in three steps, each of them rounded at a scale of its own: the rate is multiplied
by the seconds, divided by the seconds of a year, and multiplied by the debt. Each step keeps the
order of its operands where none of them is negative (`Decimal.Below`), whatever their scales: a
smaller quotient is not rounded above a larger one, and it has room where the larger has
(`Decimal.nearest?_mono`). So the whole is monotone (`interest_grows`), also from the cases in which
nothing is due, and what overflows for less overflows for more.
-/

set_option autoImplicit false

namespace LeveragedLp

namespace Decimal

variable {a a' b b' c d' : Decimal} {num den num' den' : Nat}

/-! ## Rounded quotients in order -/

theorem le_iff_of_not_negative (ha : a.negative = false) (hb : b.negative = false) :
    a ≤ b ↔ a.mantissa * tenPow b.scale ≤ b.mantissa * tenPow a.scale := by
  show a.signed * tenPow b.scale ≤ b.signed * tenPow a.scale ↔ _
  rw [signed_of_not_negative ha, signed_of_not_negative hb]
  exact_mod_cast Iff.rfl

theorem negative_eq_false (h : ¬ a ≤ .zero) : a.negative = false := by
  by_contra hsign
  apply h
  show a.signed * (tenPow 0 : Nat) ≤ 0 * tenPow a.scale
  have hsigned : a.signed = -(a.mantissa : Int) := by simp [signed, hsign]
  rw [tenPow_zero]
  omega

/-- Two decimals in order, neither of them negative. -/
structure Below (a b : Decimal) : Prop where
  left : a.negative = false
  right : b.negative = false
  le : a ≤ b

/-- What could be rounded at some scale could be rounded at every coarser one. -/
theorem Nearest.fits (hden : 0 < den) (hc : Nearest num den c) :
    roundHalfEven num den < twoPow 96 := by
  have hpos := tenPow_pos c.scale
  calc roundHalfEven num den
      ≤ roundHalfEven (num * tenPow c.scale) den :=
        roundHalfEven_mono hden hden (Nat.mul_le_mul_right den (Nat.le_mul_of_pos_right num hpos))
    _ = c.mantissa := hc.mantissa_eq.symm
    _ < twoPow 96 := c.mantissa_lt

/-- **Of two quotients the smaller is a decimal if the larger is**, and it is no larger when both
are rounded. -/
theorem nearest?_mono (hden : 0 < den) (hden' : 0 < den') (hle : num * den' ≤ num' * den)
    (h : nearest? false num' den' = some d') :
    ∃ d, nearest? false num den = some d ∧ d.Below d' := by
  obtain ⟨c', hsign', hc', rfl⟩ := nearest?_eq_some h
  have hfits : roundHalfEven num den < twoPow 96 :=
    Nat.lt_of_le_of_lt (roundHalfEven_mono hden hden' hle) (hc'.fits hden')
  obtain ⟨r, hr⟩ := Option.isSome_iff_exists.1
    (isSome_nearestFrom false (Nat.le_refl 28) hfits)
  have hsome : nearest? false num den = some r.normalize := by
    unfold nearest?
    rw [hr]
    rfl
  obtain ⟨hsign, hnearest⟩ := nearestFrom_eq_some (Nat.le_refl 28) hr
  refine ⟨r.normalize, hsome, ?_, ?_, ?_⟩
  · simp [normalize, hsign]
  · simp [normalize, hsign']
  · have hcross := Nearest.mono hden hden' hnearest hc' hle
    have hvalues : r ≤ c' := (le_iff_of_not_negative hsign hsign').2 hcross
    exact le_trans r.normalize_le (le_trans hvalues c'.le_normalize)

/-- Larger factors have no smaller product. -/
theorem Below.mul? (ha : a.Below a') (hb : b.Below b') (h : a'.mul? b' = some d') :
    ∃ d, a.mul? b = some d ∧ d.Below d' := by
  unfold Decimal.mul? at h ⊢
  rw [ha.right, hb.right] at h
  rw [ha.left, hb.left]
  apply nearest?_mono (tenPow_pos _) (tenPow_pos _) _ h
  have hla := (le_iff_of_not_negative ha.left ha.right).1 ha.le
  have hlb := (le_iff_of_not_negative hb.left hb.right).1 hb.le
  calc a.mantissa * b.mantissa * tenPow (a'.scale + b'.scale)
      = a.mantissa * tenPow a'.scale * (b.mantissa * tenPow b'.scale) := by rw [tenPow_add]; ring
    _ ≤ a'.mantissa * tenPow a.scale * (b'.mantissa * tenPow b.scale) := Nat.mul_le_mul hla hlb
    _ = a'.mantissa * b'.mantissa * tenPow (a.scale + b.scale) := by rw [tenPow_add]; ring

/-- A larger dividend has no smaller quotient. -/
theorem Below.div? (ha : a.Below a') (hb : b.negative = false) (h : a'.div? b = some d') :
    ∃ d, a.div? b = some d ∧ d.Below d' := by
  have hpos := pos_of_div? h
  rw [div?_of_pos hpos, ha.right, hb] at h
  rw [div?_of_pos hpos, ha.left, hb]
  apply nearest?_mono (Nat.mul_pos hpos (tenPow_pos _)) (Nat.mul_pos hpos (tenPow_pos _)) _ h
  have hla := (le_iff_of_not_negative ha.left ha.right).1 ha.le
  calc a.mantissa * tenPow b.scale * (b.mantissa * tenPow a'.scale)
      = a.mantissa * tenPow a'.scale * (b.mantissa * tenPow b.scale) := by ring
    _ ≤ a'.mantissa * tenPow a.scale * (b.mantissa * tenPow b.scale) :=
        Nat.mul_le_mul_right _ hla
    _ = a'.mantissa * tenPow b.scale * (b.mantissa * tenPow a.scale) := by ring

theorem below_ofUInt64 {m n : UInt64} (h : m ≤ n) : (ofUInt64 m).Below (ofUInt64 n) := by
  rw [UInt64.le_iff_toNat_le] at h
  have hcross : (ofUInt64 m).mantissa * tenPow 0 ≤ (ofUInt64 n).mantissa * tenPow 0 :=
    Nat.mul_le_mul_right (tenPow 0) h
  exact ⟨rfl, rfl, (le_iff_of_not_negative (a := ofUInt64 m) (b := ofUInt64 n) rfl rfl).2 hcross⟩

end Decimal

/-! ## Products of amounts -/

namespace Amount

variable {a a' y : Amount} {factor factor' : Decimal}

/-- A larger amount and a larger factor have no smaller product, and what is too much for the
smaller is too much for the larger. -/
theorem times_le (hle : a ≤ a') (hfactor : factor.Below factor') (h : a'.times factor' = .ok y) :
    ∃ x, a.times factor = .ok x ∧ x ≤ y := by
  obtain ⟨large, hlarge, h⟩ := except_bind_eq_ok.1 h
  obtain ⟨product', hproduct', h⟩ := except_bind_eq_ok.1 h
  obtain ⟨hsign', hmantissa', hscale'⟩ := toDecimal_eq_ok hlarge
  have hlt : a.units < twoPow 96 := by
    have hlt' := large.mantissa_lt
    rw [hmantissa'] at hlt'
    exact Nat.lt_of_le_of_lt (le_iff.1 hle) hlt'
  obtain ⟨small, hsmall⟩ := isOk_toDecimal hlt
  obtain ⟨hsign, hmantissa, hscale⟩ := toDecimal_eq_ok hsmall
  have hbelow : small.Below large := by
    refine ⟨hsign, hsign', (Decimal.le_iff_of_not_negative hsign hsign').2 ?_⟩
    rw [hmantissa, hmantissa', hscale, hscale']
    exact Nat.mul_le_mul_right _ (le_iff.1 hle)
  obtain ⟨product, hproduct, hproducts⟩ := hbelow.mul? hfactor (orFault_eq_ok.1 hproduct')
  have hx : ofDecimal product = .ok (ofWhole product) := by simp [ofDecimal, hproducts.left]
  have hy : ofDecimal product' = .ok (ofWhole product') := by simp [ofDecimal, hproducts.right]
  cases h.symm.trans hy
  refine ⟨ofWhole product, ?_, ?_⟩
  · exact except_bind_eq_ok.2
      ⟨small, hsmall, except_bind_eq_ok.2 ⟨product, orFault_eq_ok.2 hproduct, hx⟩⟩
  · exact Decimal.whole_le_whole
      ((Decimal.le_iff_of_not_negative hproducts.left hproducts.right).1 hproducts.le)

end Amount

/-! ## Interest -/

/-- Where something is due, it is the debt times the rate of the period. -/
theorem interestDue_of_times {debt due : Amount} {rate part scaled : Decimal} {elapsed : UInt64}
    (hdue : ¬ (debt.isZero ∨ elapsed = 0 ∨ rate ≤ .zero))
    (hscaled : rate.mul? (.ofUInt64 elapsed) = some scaled)
    (hpart : scaled.div? (.ofUInt64 secondsPerYear) = some part)
    (h : debt.times part = .ok due) : interestDue debt rate elapsed = .ok due := by
  unfold interestDue
  rw [if_neg hdue]
  refine except_bind_eq_ok.2 ⟨part, orFault_eq_ok.2 ?_, h⟩
  exact Option.bind_eq_some_iff.2 ⟨scaled, hscaled, hpart⟩

/-- **Interest grows with the debt, the rate and the time.** If interest can be charged on a debt,
at a rate and for some seconds, then also on a debt that is not larger, at a rate that is not higher
and for a time that is not longer, and it is not more. -/
theorem interest_grows {debt debt' due' : Amount} {rate rate' : Decimal}
    {elapsed elapsed' : UInt64} (hdebt : debt ≤ debt') (hrate : rate ≤ rate')
    (htime : elapsed ≤ elapsed') (h : interestDue debt' rate' elapsed' = .ok due') :
    ∃ due, interestDue debt rate elapsed = .ok due ∧ due ≤ due' := by
  by_cases hnothing : debt.isZero ∨ elapsed = 0 ∨ rate ≤ .zero
  · exact ⟨.zero, if_pos hnothing, Nat.zero_le _⟩
  · -- something is due on less, so that the larger side is computed by the same steps
    have hpositive : ¬ rate ≤ .zero := fun h0 => hnothing (.inr (.inr h0))
    have hpositive' : ¬ rate' ≤ .zero := fun h0 => hpositive (Decimal.le_trans hrate h0)
    rcases interestDue_eq_ok h with ⟨hnothing', -⟩ | ⟨-, part', scaled', hmul', hdiv', hdue'⟩
    · exfalso
      rcases hnothing' with hzero' | htime' | hrate'
      · apply hnothing
        left
        rw [Amount.isZero_iff] at hzero' ⊢
        rw [Amount.le_iff] at hdebt
        omega
      · apply hnothing
        right
        left
        rw [htime', UInt64.le_iff_toNat_le] at htime
        exact UInt64.toNat_inj.1 (Nat.le_zero.1 htime)
      · exact hpositive' hrate'
    · have hrates : rate.Below rate' :=
        ⟨Decimal.negative_eq_false hpositive, Decimal.negative_eq_false hpositive', hrate⟩
      obtain ⟨scaled, hmul, hscaled⟩ := hrates.mul? (Decimal.below_ofUInt64 htime) hmul'
      obtain ⟨part, hdiv, hparts⟩ := hscaled.div? rfl hdiv'
      obtain ⟨due, hdue, hle⟩ := Amount.times_le hdebt hparts hdue'
      exact ⟨due, interestDue_of_times hnothing hmul hdiv hdue, hle⟩

/-- A third of a year at a rate of 28 places on one debt, against a quarter at a rate of one place
on a smaller one. -/
theorem quarter_costs_less_than_third :
    let rate : Decimal := { negative := false, mantissa := tenPow 28 / 3, scale := 28 }
    interestDue { units := 7000 } rate 10512000 = .ok { units := 777 } ∧
      ∃ due, interestDue { units := 6999 } (.tenths 3) 7884000 = .ok due ∧
        due ≤ { units := 777 } := by
  intro rate
  have hthird : interestDue { units := 7000 } rate 10512000 = .ok { units := 777 } := by
    decide +kernel
  exact ⟨hthird, interest_grows (by decide) (by decide) (by decide) hthird⟩

end LeveragedLp

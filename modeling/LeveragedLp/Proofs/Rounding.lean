import LeveragedLp.Decimal.Rounding
import Mathlib.Tactic.NormNum

/-!
# What rounding keeps

Rounding a quotient of natural numbers keeps its order: a smaller quotient is not rounded above a
larger one (`roundHalfEven_mono`), and a natural number is not crossed, since it is itself one of
the candidates (`roundHalfEven_le`, `le_roundHalfEven`).

A decimal has its own scale, the finest at which the rounded mantissa fits, so that two quotients
may be rounded on different grids. The finest scale that fits leaves no room to spare: ten times the
mantissa has more than 96 bits (`Nearest.no_room`), so that a decimal with more places than this
is smaller. This is why no decimal is crossed either, whatever its scale
(`Nearest.le_of_quotient_le`, `Nearest.ge_of_quotient_ge`), and why the order is kept from grid to
grid (`Nearest.mono`). What is rounded is a decimal as long as the whole part fits
(`isSome_nearest?`).
-/

set_option autoImplicit false

namespace LeveragedLp

/-! ## To a natural number -/

section

variable {num den num' den' bound : Nat}

/-- Rounding does not go beyond a natural number that bounds the quotient. -/
theorem roundHalfEven_le (hden : 0 < den) (hle : num ≤ bound * den) :
    roundHalfEven num den ≤ bound := by
  have hq : num / den ≤ bound := Nat.div_le_of_le_mul (by rwa [Nat.mul_comm])
  have hdecompose : den * (num / den) + num % den = num := Nat.div_add_mod num den
  unfold roundHalfEven
  simp only
  split
  · exact hq
  · next hup =>
    by_cases heq : num / den = bound
    · -- the quotient is the bound itself, so nothing is left to round up
      have hrest : num % den = 0 := by
        rw [heq, Nat.mul_comm] at hdecompose
        omega
      exact absurd (Or.inl (by omega)) hup
    · omega

/-- Nor does it stay below one that the quotient reaches. -/
theorem le_roundHalfEven (hden : 0 < den) (hle : bound * den ≤ num) :
    bound ≤ roundHalfEven num den := by
  have hq : bound ≤ num / den := (Nat.le_div_iff_mul_le hden).2 hle
  unfold roundHalfEven
  simp only
  split
  · exact hq
  · exact Nat.le_succ_of_le hq

/-- What is rounded is off by a half at most. -/
theorem two_mul_roundHalfEven (num : Nat) (hden : 0 < den) :
    2 * (roundHalfEven num den * den) ≤ 2 * num + den ∧
      2 * num ≤ 2 * (roundHalfEven num den * den) + den := by
  have hdecompose : num / den * den + num % den = num := Nat.div_add_mod' num den
  have hrest : num % den < den := Nat.mod_lt num hden
  unfold roundHalfEven
  simp only
  split
  · omega
  · next hup =>
    have hhalf : den ≤ 2 * (num % den) := by omega
    rw [Nat.add_one_mul (num / den) den]
    omega

/-- **Rounding keeps the order of quotients.** -/
theorem roundHalfEven_mono (hden : 0 < den) (hden' : 0 < den')
    (hle : num * den' ≤ num' * den) : roundHalfEven num den ≤ roundHalfEven num' den' := by
  have hdecompose : num / den * den + num % den = num := Nat.div_add_mod' num den
  have hdecompose' : num' / den' * den' + num' % den' = num' := Nat.div_add_mod' num' den'
  have hq : num / den ≤ num' / den' := by
    rw [Nat.le_div_iff_mul_le hden']
    refine Nat.le_of_mul_le_mul_right ?_ hden
    calc num / den * den' * den = num / den * den * den' := Nat.mul_right_comm ..
      _ ≤ num * den' := Nat.mul_le_mul_right den' (Nat.div_mul_le_self num den)
      _ ≤ num' * den := hle
  rcases Nat.lt_or_eq_of_le hq with hlt | heq
  · -- there is a natural number between the two
    have hceil : num ≤ (num / den + 1) * den := by
      rw [Nat.add_one_mul (num / den) den]
      have hrest : num % den < den := Nat.mod_lt num hden
      omega
    calc roundHalfEven num den ≤ num / den + 1 := roundHalfEven_le hden hceil
      _ ≤ num' / den' := hlt
      _ ≤ roundHalfEven num' den' := le_roundHalfEven hden' (Nat.div_mul_le_self num' den')
  · -- the remainders decide, as the parity of the whole parts is the same
    have hrest : num % den * den' ≤ num' % den' * den := by
      rw [← hdecompose, ← hdecompose', ← heq, Nat.add_mul, Nat.add_mul,
        Nat.mul_right_comm (num / den) den' den] at hle
      exact Nat.le_of_add_le_add_left hle
    have hdouble : 2 * (num % den) * den' ≤ 2 * (num' % den') * den := by
      rw [Nat.mul_assoc, Nat.mul_assoc]
      exact Nat.mul_le_mul_left 2 hrest
    have hup : den ≤ 2 * (num % den) → den' ≤ 2 * (num' % den') := by
      intro hhalf
      refine Nat.le_of_mul_le_mul_right ?_ hden
      calc den' * den = den * den' := Nat.mul_comm ..
        _ ≤ 2 * (num % den) * den' := Nat.mul_le_mul_right den' hhalf
        _ ≤ 2 * (num' % den') * den := hdouble
    have hover : den < 2 * (num % den) → den' < 2 * (num' % den') := by
      intro hhalf
      refine Nat.lt_of_mul_lt_mul_right (a := den) ?_
      calc den' * den = den * den' := Nat.mul_comm ..
        _ < 2 * (num % den) * den' := Nat.mul_lt_mul_of_pos_right hhalf hden'
        _ ≤ 2 * (num' % den') * den := hdouble
    unfold roundHalfEven
    simp only [← heq]
    split
    · split
      · exact Nat.le_refl _
      · exact Nat.le_succ _
    · next hround =>
      rw [if_neg]
      omega

/-- Rounding something ten times as large to `2 ^ 96` or beyond loses no more than the last digit,
whatever it is. -/
theorem ten_mul_roundHalfEven (hden : 0 < den)
    (hle : twoPow 96 ≤ roundHalfEven (num * 10) den) :
    twoPow 96 ≤ roundHalfEven num den * 10 := by
  have hfine := (two_mul_roundHalfEven (num * 10) hden).1
  have hcoarse := (two_mul_roundHalfEven num hden).2
  have hbound : twoPow 96 * den ≤ roundHalfEven (num * 10) den * den :=
    Nat.mul_le_mul_right den hle
  generalize roundHalfEven num den = m at hcoarse ⊢
  have hpow : twoPow 96 = 79228162514264337593543950336 := rfl
  rw [hpow] at hbound ⊢
  -- twice the mantissa of the coarser grid, with both halves that were rounded taken off
  have hscaled : 158456325028528675187087900661 * den ≤ m * 20 * den := by
    rw [Nat.mul_right_comm]
    omega
  have hmantissa := Nat.le_of_mul_le_mul_right hscaled hden
  omega

end

/-! ## To a decimal -/

namespace Decimal

theorem ofParts?_eq_some {negative : Bool} {mantissa scale : Nat} {d : Decimal}
    (h : ofParts? negative mantissa scale = some d) :
    d.negative = negative ∧ d.mantissa = mantissa ∧ d.scale = scale := by
  unfold ofParts? at h
  split at h
  · cases h
    exact ⟨rfl, rfl, rfl⟩
  · cases h

theorem isSome_ofParts? (negative : Bool) {mantissa scale : Nat} (hscale : scale ≤ 28) :
    (ofParts? negative mantissa scale).isSome ↔ mantissa < twoPow 96 := by
  unfold ofParts?
  split
  · next h => simp [h.1]
  · next h => simpa [hscale] using h

/-- A quotient rounded at the finest scale up to `top` where it fits. -/
structure NearestUpTo (top num den : Nat) (d : Decimal) : Prop where
  mantissa_eq : d.mantissa = roundHalfEven (num * tenPow d.scale) den
  scale_le : d.scale ≤ top
  /-- One place more has no room. -/
  finest : d.scale < top → twoPow 96 ≤ roundHalfEven (num * tenPow (d.scale + 1)) den

/-- A quotient rounded to a decimal. -/
abbrev Nearest : Nat → Nat → Decimal → Prop := NearestUpTo 28

theorem nearestFrom_eq_some {negative : Bool} {num den top : Nat} {d : Decimal} (htop : top ≤ 28)
    (h : nearestFrom negative num den top = some d) :
    d.negative = negative ∧ NearestUpTo top num den d := by
  -- by induction on the scale: the first one at which the mantissa fits is taken
  induction top with
  | zero =>
      obtain ⟨hsign, hmantissa, hscale⟩ := ofParts?_eq_some h
      refine ⟨hsign, ?_, Nat.le_of_eq hscale, fun hlt => ?_⟩
      · rw [hmantissa, hscale, tenPow_zero, Nat.mul_one]
      · omega
  | succ top ih =>
      unfold nearestFrom at h
      split at h
      · next c hc =>
        cases h
        obtain ⟨hsign, hmantissa, hscale⟩ := ofParts?_eq_some hc
        refine ⟨hsign, ?_, Nat.le_of_eq hscale, fun hlt => ?_⟩
        · rw [hmantissa, hscale]
        · omega
      · next hfull =>
        obtain ⟨hsign, hnearest⟩ := ih (by omega) h
        refine ⟨hsign, hnearest.mantissa_eq, Nat.le_succ_of_le hnearest.scale_le, fun hlt => ?_⟩
        rcases Nat.lt_or_eq_of_le hnearest.scale_le with hless | heq
        · exact hnearest.finest hless
        · rw [heq]
          by_contra hroom
          have hsome := (isSome_ofParts? negative htop).2 (Nat.lt_of_not_le hroom)
          rw [hfull] at hsome
          cases hsome

/-- Rounding finds a decimal if the whole part fits. -/
theorem isSome_nearestFrom (negative : Bool) {num den top : Nat} (htop : top ≤ 28)
    (hfits : roundHalfEven num den < twoPow 96) : (nearestFrom negative num den top).isSome := by
  induction top with
  | zero => exact (isSome_ofParts? negative htop).2 hfits
  | succ top ih =>
      unfold nearestFrom
      split
      · rfl
      · exact ih (by omega)

theorem nearest?_eq_some {negative : Bool} {num den : Nat} {d : Decimal}
    (h : nearest? negative num den = some d) :
    ∃ c, c.negative = negative ∧ Nearest num den c ∧ d = c.normalize := by
  obtain ⟨c, hc, rfl⟩ := Option.map_eq_some_iff.1 h
  obtain ⟨hsign, hnearest⟩ := nearestFrom_eq_some (Nat.le_refl 28) hc
  exact ⟨c, hsign, hnearest, rfl⟩

/-! ### The order of what is rounded -/

namespace Nearest

variable {num den num' den' : Nat} {c c' t : Decimal}

/-- Ten times the mantissa does not fit, unless there are no more places. -/
theorem no_room (hden : 0 < den) (hc : Nearest num den c) (hscale : c.scale < 28) :
    twoPow 96 ≤ c.mantissa * 10 := by
  have hfull := hc.finest hscale
  rw [tenPow_succ, ← Nat.mul_assoc] at hfull
  rw [hc.mantissa_eq]
  exact ten_mul_roundHalfEven hden hfull

/-- A decimal with more places is smaller, as it has no larger mantissa. -/
theorem le_of_scale_lt (hden : 0 < den) (hc : Nearest num den c) (hscale : c.scale < t.scale) :
    t.mantissa * tenPow c.scale ≤ c.mantissa * tenPow t.scale := by
  have hroom := hc.no_room hden (Nat.lt_of_lt_of_le hscale t.scale_le)
  have hplaces : tenPow (c.scale + 1) ≤ tenPow t.scale := Nat.pow_le_pow_right (by decide) hscale
  calc t.mantissa * tenPow c.scale
      ≤ c.mantissa * 10 * tenPow c.scale :=
        Nat.mul_le_mul_right _ (Nat.le_trans (Nat.le_of_lt t.mantissa_lt) hroom)
    _ = c.mantissa * tenPow (c.scale + 1) := by rw [tenPow_succ, Nat.mul_assoc, Nat.mul_comm 10]
    _ ≤ c.mantissa * tenPow t.scale := Nat.mul_le_mul_left _ hplaces

/-- **Rounding does not go beyond a decimal that bounds the quotient**, whatever the scale of
either. -/
theorem le_of_quotient_le (hden : 0 < den) (hc : Nearest num den c)
    (hle : num * tenPow t.scale ≤ t.mantissa * den) :
    c.mantissa * tenPow t.scale ≤ t.mantissa * tenPow c.scale := by
  rcases Nat.lt_or_ge c.scale t.scale with hscale | hscale
  · -- the bound has room at a finer scale, so the quotient would have had it as well
    have hfull := hc.finest (Nat.lt_of_lt_of_le hscale t.scale_le)
    have hplaces : tenPow (c.scale + 1) ≤ tenPow t.scale :=
      Nat.pow_le_pow_right (by decide) hscale
    have hfits : roundHalfEven (num * tenPow (c.scale + 1)) den ≤ t.mantissa := by
      apply roundHalfEven_le hden
      exact Nat.le_trans (Nat.mul_le_mul_left num hplaces) hle
    have hlt := t.mantissa_lt
    omega
  · -- the bound is on the grid of the result
    obtain ⟨k, hk⟩ := Nat.exists_eq_add_of_le hscale
    have hbound : c.mantissa ≤ t.mantissa * tenPow k := by
      rw [hc.mantissa_eq]
      apply roundHalfEven_le hden
      calc num * tenPow c.scale = num * tenPow t.scale * tenPow k := by
            rw [hk, tenPow_add, Nat.mul_assoc]
        _ ≤ t.mantissa * den * tenPow k := Nat.mul_le_mul_right _ hle
        _ = t.mantissa * tenPow k * den := Nat.mul_right_comm ..
    calc c.mantissa * tenPow t.scale ≤ t.mantissa * tenPow k * tenPow t.scale :=
          Nat.mul_le_mul_right _ hbound
      _ = t.mantissa * tenPow c.scale := by
          rw [hk, tenPow_add, Nat.mul_assoc, Nat.mul_comm (tenPow k)]

/-- **Nor does it stay below a decimal that the quotient reaches.** -/
theorem ge_of_quotient_ge (hden : 0 < den) (hc : Nearest num den c)
    (hle : t.mantissa * den ≤ num * tenPow t.scale) :
    t.mantissa * tenPow c.scale ≤ c.mantissa * tenPow t.scale := by
  rcases Nat.lt_or_ge c.scale t.scale with hscale | hscale
  · exact hc.le_of_scale_lt hden hscale
  · obtain ⟨k, hk⟩ := Nat.exists_eq_add_of_le hscale
    have hbound : t.mantissa * tenPow k ≤ c.mantissa := by
      rw [hc.mantissa_eq]
      apply le_roundHalfEven hden
      calc t.mantissa * tenPow k * den = t.mantissa * den * tenPow k := Nat.mul_right_comm ..
        _ ≤ num * tenPow t.scale * tenPow k := Nat.mul_le_mul_right _ hle
        _ = num * tenPow c.scale := by rw [hk, tenPow_add, Nat.mul_assoc]
    calc t.mantissa * tenPow c.scale = t.mantissa * tenPow k * tenPow t.scale := by
          rw [hk, tenPow_add, Nat.mul_assoc, Nat.mul_comm (tenPow k)]
      _ ≤ c.mantissa * tenPow t.scale := Nat.mul_le_mul_right _ hbound

/-- **A smaller quotient is not rounded above a larger one**, though each has a scale of its own. -/
theorem mono (hden : 0 < den) (hden' : 0 < den') (hc : Nearest num den c)
    (hc' : Nearest num' den' c') (hle : num * den' ≤ num' * den) :
    c.mantissa * tenPow c'.scale ≤ c'.mantissa * tenPow c.scale := by
  have hscaled : ∀ k, num * tenPow k * den' ≤ num' * tenPow k * den := by
    intro k
    rw [Nat.mul_right_comm num, Nat.mul_right_comm num']
    exact Nat.mul_le_mul_right _ hle
  rcases Nat.lt_trichotomy c.scale c'.scale with hscale | hscale | hscale
  · -- the larger quotient has room at a finer scale, so the smaller would have had it as well
    have hfull := hc.finest (Nat.lt_of_lt_of_le hscale c'.scale_le)
    have hplaces : tenPow (c.scale + 1) ≤ tenPow c'.scale :=
      Nat.pow_le_pow_right (by decide) hscale
    have hfits : roundHalfEven (num * tenPow (c.scale + 1)) den ≤ c'.mantissa := by
      rw [hc'.mantissa_eq]
      apply roundHalfEven_mono hden hden'
      calc num * tenPow (c.scale + 1) * den' ≤ num * tenPow c'.scale * den' :=
            Nat.mul_le_mul_right _ (Nat.mul_le_mul_left num hplaces)
        _ ≤ num' * tenPow c'.scale * den := hscaled c'.scale
    have hlt := c'.mantissa_lt
    omega
  · have hsame : c.mantissa ≤ c'.mantissa := by
      rw [hc.mantissa_eq, hc'.mantissa_eq, ← hscale]
      exact roundHalfEven_mono hden hden' (hscaled c.scale)
    rw [hscale]
    exact Nat.mul_le_mul_right _ hsame
  · exact hc'.le_of_scale_lt hden' hscale

end Nearest

/-! ### Trailing zeros -/

theorem signed_of_not_negative {d : Decimal} (hsign : d.negative = false) :
    d.signed = (d.mantissa : Int) := by
  unfold signed
  rw [hsign]
  rfl

/-- A decimal of no negative value has its mantissa as value, whatever its sign says. -/
theorem signed_cases (d : Decimal) : d.signed = (d.mantissa : Int) ∨ d.signed < 0 := by
  unfold signed
  cases d.negative with
  | false => exact .inl rfl
  | true =>
      show -(d.mantissa : Int) = d.mantissa ∨ -(d.mantissa : Int) < 0
      omega

theorem signed_normalize (d : Decimal) :
    d.normalize.signed * tenPow d.scale = d.signed * tenPow d.normalize.scale := by
  have hvalue : d.normalize.mantissa * tenPow d.scale = d.mantissa * tenPow d.normalize.scale :=
    stripZeros_value d.mantissa d.scale
  have hvalue : (d.normalize.mantissa : Int) * tenPow d.scale =
      d.mantissa * tenPow d.normalize.scale := by exact_mod_cast hvalue
  have hzero : d.mantissa = 0 → d.normalize.mantissa = 0 := fun h0 =>
    Nat.le_zero.1 (h0 ▸ stripZeros_fst_le d.mantissa d.scale)
  have hsign : d.normalize.negative = (d.negative && d.mantissa != 0) := rfl
  unfold signed
  rw [hsign]
  cases d.negative with
  | false => exact hvalue
  | true =>
      by_cases h0 : d.mantissa = 0
      · simp [h0, hzero h0]
      · simp [h0, hvalue]

/-- Without its trailing zeros a decimal is the same number. -/
theorem normalize_le (d : Decimal) : d.normalize ≤ d := Int.le_of_eq (signed_normalize d)

theorem le_normalize (d : Decimal) : d ≤ d.normalize := Int.le_of_eq (signed_normalize d).symm

/-- The whole part grows with the value. -/
theorem whole_le_whole {c d : Decimal}
    (hle : c.mantissa * tenPow d.scale ≤ d.mantissa * tenPow c.scale) : c.whole ≤ d.whole := by
  unfold whole
  rw [Nat.le_div_iff_mul_le (tenPow_pos d.scale)]
  refine Nat.le_of_mul_le_mul_right ?_ (tenPow_pos c.scale)
  calc c.mantissa / tenPow c.scale * tenPow d.scale * tenPow c.scale
      = c.mantissa / tenPow c.scale * tenPow c.scale * tenPow d.scale := Nat.mul_right_comm ..
    _ ≤ c.mantissa * tenPow d.scale := Nat.mul_le_mul_right _ (Nat.div_mul_le_self _ _)
    _ ≤ d.mantissa * tenPow c.scale := hle

theorem whole_normalize (d : Decimal) : d.normalize.whole = d.whole := by
  have hvalue : d.normalize.mantissa * tenPow d.scale = d.mantissa * tenPow d.normalize.scale :=
    stripZeros_value d.mantissa d.scale
  exact Nat.le_antisymm (whole_le_whole (Nat.le_of_eq hvalue))
    (whole_le_whole (Nat.le_of_eq hvalue.symm))

end Decimal

end LeveragedLp

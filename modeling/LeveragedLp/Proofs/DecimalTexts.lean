import LeveragedLp.Decimal.Reader
import LeveragedLp.Proofs.LedgerForm

/-!
# Reading decimals that were written

The text of a decimal shows its sign, its digits and all its places. Reading gathers the digits
again, one by one: as long as there are no more than 28 places and the row of digits keeps below
`2 ^ 96`, no digit is rounded off (`Decimal.readDigits_places`). So a decimal is read back with its
scale, zeros at the end included (`Decimal.ofText?_text`). Only the sign of a zero is dropped.
-/

set_option autoImplicit false

namespace LeveragedLp

namespace Decimal

variable {negative point seen : Bool} {mantissa places : Nat} {digits rest : List Char} {c : Char}

/-! ## Rows of digits -/

/-- A row of digits only grows. -/
theorem le_ofDigitChars (digits : List Char) (mantissa : Nat) :
    mantissa ≤ Nat.ofDigitChars 10 digits mantissa := by
  induction digits generalizing mantissa with
  | nil => exact Nat.le_refl _
  | cons c digits ih =>
      rw [Nat.ofDigitChars_cons]
      have hgrows := ih (10 * mantissa + (c.toNat - '0'.toNat))
      omega

/-- A digit that has room is added to the row. -/
theorem readDigits_cons (hc : c.isDigit = true) (hplaces : places < 28)
    (hfits : 10 * mantissa + digitValue c < twoPow 96) :
    readDigits negative point seen false mantissa places (c :: rest) =
      readDigits negative point true false (10 * mantissa + digitValue c)
        (if point then places + 1 else 0) rest := by
  have hroom : ¬ ((28 ≤ places ∧ (!false) = true) ∨
      (point = true ∧ twoPow 96 ≤ 10 * mantissa + digitValue c)) := by
    omega
  rw [readDigits, if_pos hc]
  simp only
  rw [if_neg hroom, if_neg (Nat.not_le.2 hfits)]

/-- Digits before the point are gathered as long as they have room. -/
theorem readDigits_whole (hdigits : ∀ c ∈ digits, c.isDigit = true)
    (hfits : Nat.ofDigitChars 10 digits mantissa < twoPow 96) :
    readDigits negative false true false mantissa 0 (digits ++ rest) =
      readDigits negative false true false (Nat.ofDigitChars 10 digits mantissa) 0 rest := by
  induction digits generalizing mantissa with
  | nil => rfl
  | cons c digits ih =>
      have hgrows := le_ofDigitChars digits (10 * mantissa + digitValue c)
      rw [Nat.ofDigitChars_cons] at hfits
      rw [List.cons_append, readDigits_cons (hdigits c List.mem_cons_self) (by decide)
        (Nat.lt_of_le_of_lt hgrows hfits)]
      exact ih (fun d hd => hdigits d (List.mem_cons_of_mem c hd)) hfits

/-- So are those behind it, each of which takes a place. -/
theorem readDigits_places (hdigits : ∀ c ∈ digits, c.isDigit = true)
    (hplaces : places + digits.length ≤ 28)
    (hfits : Nat.ofDigitChars 10 digits mantissa < twoPow 96) :
    readDigits negative true true false mantissa places digits =
      ofRow? negative (Nat.ofDigitChars 10 digits mantissa) (places + digits.length) := by
  induction digits generalizing mantissa places with
  | nil => rfl
  | cons c digits ih =>
      have hgrows := le_ofDigitChars digits (10 * mantissa + digitValue c)
      rw [Nat.ofDigitChars_cons] at hfits
      rw [List.length_cons] at hplaces ⊢
      rw [readDigits_cons (hdigits c List.mem_cons_self) (by omega)
        (Nat.lt_of_le_of_lt hgrows hfits)]
      have hcount : places + (digits.length + 1) = places + 1 + digits.length := by omega
      rw [hcount] at hplaces ⊢
      exact ih (fun d hd => hdigits d (List.mem_cons_of_mem c hd)) hplaces hfits

/-- Up to 28 places are counted without beginning again. -/
theorem ofRow?_eq (hfits : mantissa < twoPow 96) (hplaces : places ≤ 28) :
    ofRow? negative mantissa places = some ⟨negative, mantissa, places, hfits, hplaces⟩ := by
  rw [ofRow?, Nat.mod_eq_of_lt (Nat.lt_succ_of_le hplaces)]
  exact dif_pos ⟨hfits, hplaces⟩

end Decimal

/-! ## Numerals -/

/-- Digits do not begin with a sign. -/
theorem digits_append_ne {digits rest left : List Char} {sign : Char} (hne : digits ≠ [])
    (hdigits : ∀ c ∈ digits, c.isDigit = true) (hsign : sign.isDigit = false) :
    digits ++ rest ≠ sign :: left := by
  intro h
  cases digits with
  | nil => exact hne rfl
  | cons c digits =>
      have hc := hdigits c List.mem_cons_self
      rw [(List.cons.inj h).1, hsign] at hc
      cases hc

namespace PlainNumeral

/-- **A numeral behind its sign is read as the row of its digits**, if it has no more than 28
places. -/
theorem readDigits_eq (n : PlainNumeral) (negative : Bool)
    (hfits : Nat.ofDigitChars 10 (n.whole ++ n.places) 0 < twoPow 96)
    (hplaces : n.places.length ≤ 28) :
    Decimal.readDigits negative false false false 0 0
      (n.whole ++ if n.places = [] then [] else '.' :: n.places) =
        some ⟨negative, Nat.ofDigitChars 10 (n.whole ++ n.places) 0, n.places.length, hfits,
          hplaces⟩ := by
  have hwhole : ∀ c ∈ n.whole, c.isDigit = true := fun c hc =>
    n.isDigit c (List.mem_append_left _ hc)
  have hbehind : ∀ c ∈ n.places, c.isDigit = true := fun c hc =>
    n.isDigit c (List.mem_append_right _ hc)
  rw [← Decimal.ofRow?_eq hfits hplaces]
  rw [Nat.ofDigitChars_append] at hfits ⊢
  have hbefore := Nat.lt_of_le_of_lt (Decimal.le_ofDigitChars n.places _) hfits
  have hgathered (left : List Char) :
      Decimal.readDigits negative false false false 0 0 (n.whole ++ left) =
        Decimal.readDigits negative false true false (Nat.ofDigitChars 10 n.whole 0) 0 left := by
    cases hdigits : n.whole with
    | nil => exact absurd hdigits n.whole_ne_nil
    | cons c others =>
        rw [hdigits] at hwhole hbefore
        rw [Nat.ofDigitChars_cons] at hbefore ⊢
        have hfirst := Nat.lt_of_le_of_lt (Decimal.le_ofDigitChars others _) hbefore
        rw [List.cons_append,
          Decimal.readDigits_cons (hwhole c List.mem_cons_self) (by decide) hfirst]
        exact Decimal.readDigits_whole (fun d hd => hwhole d (List.mem_cons_of_mem c hd)) hbefore
  rw [hgathered]
  split
  · next hnone =>
    rw [hnone]
    rfl
  · have hpoint : '.'.isDigit = false := rfl
    rw [← Nat.zero_add n.places.length] at hplaces
    rw [Decimal.readDigits, if_neg (by rw [hpoint]; decide), if_pos ⟨rfl, rfl⟩,
      Decimal.readDigits_places hbehind hplaces hfits, Nat.zero_add]

/-- A numeral is read with its sign, unless it is a zero. -/
theorem ofPlainChars?_chars (n : PlainNumeral)
    (hfits : Nat.ofDigitChars 10 (n.whole ++ n.places) 0 < twoPow 96)
    (hplaces : n.places.length ≤ 28) :
    Decimal.ofPlainChars? n.chars =
      some (Decimal.unsignedZero ⟨n.negative, Nat.ofDigitChars 10 (n.whole ++ n.places) 0,
        n.places.length, hfits, hplaces⟩) := by
  have hread := n.readDigits_eq n.negative hfits hplaces
  unfold chars
  rw [List.append_assoc]
  cases hsign : n.negative with
  | true =>
      rw [hsign] at hread
      rw [if_pos rfl, List.singleton_append, Decimal.ofPlainChars?, hread]
      rfl
  | false =>
      rw [hsign] at hread
      have hwhole : ∀ c ∈ n.whole, c.isDigit = true := fun c hc =>
        n.isDigit c (List.mem_append_left _ hc)
      rw [if_neg Bool.false_ne_true, List.nil_append, Decimal.ofPlainChars?, hread]
      · rfl
      · intro left
        exact digits_append_ne n.whole_ne_nil hwhole (by decide)
      · intro left
        exact digits_append_ne n.whole_ne_nil hwhole (by decide)

end PlainNumeral

namespace Decimal

/-- **A decimal is read back from its text, with its scale**; only a zero loses its sign. -/
theorem ofText?_text (d : Decimal) : ofText? d.text = some d.unsignedZero := by
  have hwrites := partsNumeral_writes d.negative d.mantissa d.scale
  have hmantissa := ofDigitChars_partsNumeral d.negative d.mantissa d.scale
  have hscale := length_places_partsNumeral d.negative d.mantissa d.scale
  have hread := (partsNumeral d.negative d.mantissa d.scale).ofPlainChars?_chars
    (hmantissa.symm ▸ d.mantissa_lt) (hscale.symm ▸ d.scale_le)
  have hplain : ofPlainChars? d.text.toList = some d.unsignedZero := by
    rw [text, hwrites, hread]
    simp only [hmantissa, hscale]
    rfl
  rw [ofText?, hplain]

/-- The zeros at the end are there again, and the sign is gone. -/
example : ofText? (⟨true, 0, 3, by decide, by decide⟩ : Decimal).text =
    some ⟨false, 0, 3, by decide, by decide⟩ := by
  decide +kernel

/-- A decimal that is not a zero with a minus. -/
def NotNegativeZero (d : Decimal) : Prop := d.mantissa = 0 → d.negative = false

instance (d : Decimal) : Decidable d.NotNegativeZero :=
  inferInstanceAs (Decidable (d.mantissa = 0 → d.negative = false))

theorem unsignedZero_of_notNegativeZero {d : Decimal} (hd : d.NotNegativeZero) :
    d.unsignedZero = d := by
  have hsign : (d.negative && !d.isZero) = d.negative := by
    by_cases hzero : d.mantissa = 0
    · rw [hd hzero, Bool.false_and]
    · simp [isZero, hzero]
  unfold unsignedZero
  rw [hsign]

end Decimal

end LeveragedLp

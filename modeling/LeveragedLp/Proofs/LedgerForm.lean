import LeveragedLp.Proofs.DebtFree
import LeveragedLp.Proofs.InterestPrecision

/-!
# Decimals in the ledger's form

A text written in digits is a `PlainNumeral`: an optional minus, at least one digit, and, where
there are places, a point and their digits. It denotes the number that its digits make. Events show
the leverage and the health of a position as such texts (`Engine.Reachable.showsPositions`), and
every decimal has one (`Decimal.exists_ledgerNumeral`): it denotes the decimal rounded to 18 places,
a half away from zero, and has as many of the 18 places as keep the row of digits below `2 ^ 96`. So
all 18 are there for numbers below `2 ^ 96 / 10 ^ 18`, and a number of 29 digits, such as the health
of a position that owes nothing, is written without a point.
-/

set_option autoImplicit false

namespace LeveragedLp

open Engine

/-! ## Numbers written in digits -/

/-- A number written in digits. -/
structure PlainNumeral where
  negative : Bool
  /-- The digits before the point. -/
  whole : List Char
  /-- The digits behind the point. -/
  places : List Char
  whole_ne_nil : whole ≠ []
  isDigit : ∀ c ∈ whole ++ places, c.isDigit = true

namespace PlainNumeral

/-- The characters of the text: there is a point only where there are places behind it. -/
def chars (n : PlainNumeral) : List Char :=
  (if n.negative then ['-'] else []) ++ n.whole ++
    if n.places = [] then [] else '.' :: n.places

/-- The number that is denoted. -/
def value (n : PlainNumeral) : ℚ :=
  (if n.negative then -1 else 1) *
    (Nat.ofDigitChars 10 (n.whole ++ n.places) 0 / tenPow n.places.length)

/-- Where there are places, there is a point. -/
theorem point_mem (n : PlainNumeral) (h : 0 < n.places.length) : '.' ∈ n.chars := by
  unfold chars
  rw [if_neg (List.ne_nil_of_length_pos h)]
  simp

end PlainNumeral

/-- The text of a numeral. -/
def PlainNumeral.Writes (n : PlainNumeral) (text : String) : Prop := text.toList = n.chars

namespace Decimal

variable {negative : Bool} {mantissa places extra scale : Nat} {d : Decimal}

/-! ### The digits of sign, mantissa and places -/

/-- The digits behind the point, none for no places. -/
def placesDigits (fraction places : Nat) : List Char :=
  if places = 0 then [] else List.leftpad places '0' (Nat.toDigits 10 fraction)

theorem length_placesDigits (hlt : mantissa < tenPow places) :
    (placesDigits mantissa places).length = places := by
  unfold placesDigits
  split
  · next hzero => exact hzero.symm
  · next hpos =>
    have hlen : (Nat.toDigits 10 mantissa).length ≤ places :=
      (Nat.length_toDigits_le_iff (by decide) (Nat.pos_of_ne_zero hpos)).2 hlt
    rw [List.length_leftpad]
    exact Nat.max_eq_left hlen

/-- Zeros in front of digits do not matter. -/
theorem ofDigitChars_placesDigits (hlt : mantissa < tenPow places) :
    Nat.ofDigitChars 10 (placesDigits mantissa places) 0 = mantissa := by
  unfold placesDigits
  split
  · next hzero =>
    rw [hzero, tenPow_zero] at hlt
    rw [Nat.lt_one_iff.1 hlt]
    rfl
  · rw [List.leftpad, Nat.ofDigitChars_append, Nat.ofDigitChars_replicate_zero, Nat.mul_zero]
    exact Nat.ofDigitChars_ten_toDigits

theorem isDigit_placesDigits {c : Char} (hc : c ∈ placesDigits mantissa places) :
    c.isDigit = true := by
  unfold placesDigits at hc
  split at hc
  · cases hc
  · rcases List.mem_append.1 hc with hzero | hdigit
    · rw [List.eq_of_mem_replicate hzero]
      rfl
    · exact Nat.isDigit_of_mem_toDigits (by decide) (by decide) hdigit

/-- The numeral of a mantissa of which so many digits are places. -/
def partsNumeral (negative : Bool) (mantissa places : Nat) : PlainNumeral where
  negative := negative
  whole := Nat.toDigits 10 (mantissa / tenPow places)
  places := placesDigits (mantissa % tenPow places) places
  whole_ne_nil := Nat.toDigits_ne_nil
  isDigit := by
    intro c hc
    rcases List.mem_append.1 hc with hwhole | hplaces
    · exact Nat.isDigit_of_mem_toDigits (by decide) (by decide) hwhole
    · exact isDigit_placesDigits hplaces

theorem length_places_partsNumeral (negative : Bool) (mantissa places : Nat) :
    (partsNumeral negative mantissa places).places.length = places :=
  length_placesDigits (Nat.mod_lt _ (tenPow_pos places))

theorem partsNumeral_writes (negative : Bool) (mantissa places : Nat) :
    (partsNumeral negative mantissa places).Writes (partsText negative mantissa places) := by
  have hlen := length_places_partsNumeral negative mantissa places
  unfold PlainNumeral.Writes PlainNumeral.chars partsText
  by_cases hzero : places = 0
  · have hnil : (partsNumeral negative mantissa places).places = [] :=
      List.eq_nil_of_length_eq_zero (hlen.trans hzero)
    rw [if_pos hnil, if_pos hzero]
    cases negative <;> simp [partsNumeral]
  · have hcons : (partsNumeral negative mantissa places).places ≠ [] := by
      intro hnil
      rw [hnil] at hlen
      exact hzero hlen.symm
    rw [if_neg hcons, if_neg hzero]
    cases negative <;> simp [partsNumeral, placesText, placesDigits, hzero]

/-- The digits make the mantissa. -/
theorem ofDigitChars_partsNumeral (negative : Bool) (mantissa places : Nat) :
    Nat.ofDigitChars 10 ((partsNumeral negative mantissa places).whole ++
      (partsNumeral negative mantissa places).places) 0 = mantissa := by
  have hlt := Nat.mod_lt mantissa (tenPow_pos places)
  have hlen := length_placesDigits hlt
  show Nat.ofDigitChars 10 (Nat.toDigits 10 (mantissa / tenPow places) ++
    placesDigits (mantissa % tenPow places) places) 0 = mantissa
  rw [Nat.ofDigitChars_append, Nat.ofDigitChars_ten_toDigits,
    Nat.ofDigitChars_eq_ofDigitChars_zero, ofDigitChars_placesDigits hlt, hlen]
  exact Nat.div_add_mod mantissa (tenPow places)

theorem value_partsNumeral (negative : Bool) (mantissa places : Nat) :
    (partsNumeral negative mantissa places).value =
      (if negative then -1 else 1) * (mantissa / tenPow places) := by
  unfold PlainNumeral.value
  rw [ofDigitChars_partsNumeral, length_places_partsNumeral]
  rfl

/-! ### Rounding to the ledger's places -/

/-- A number rounded to some places, a half away from zero. -/
def roundedTo (places : Nat) (x : ℚ) : ℚ :=
  SignType.sign x * (round (|x| * tenPow places) / tenPow places)

/-- Rounding a half up is a division of whole numbers. -/
theorem roundHalfUp_eq_div {num den : Nat} (hden : 0 < den) :
    roundHalfUp num den = (2 * num + den) / (2 * den) := by
  have hsplit := Nat.div_add_mod num den
  have hmod := Nat.mod_lt num hden
  unfold roundHalfUp
  generalize num / den = q at *
  generalize num % den = r at *
  have hproduct : 2 * num + den = (2 * r + den) + 2 * den * q := by
    rw [← hsplit]
    ring
  rw [hproduct, Nat.add_mul_div_left _ _ (by omega)]
  split
  · next hlow =>
    rw [Nat.div_eq_of_lt (by omega)]
    omega
  · next hhigh =>
    have hone : (2 * r + den) / (2 * den) = 1 := Nat.div_eq_of_lt_le (by omega) (by omega)
    rw [hone]
    omega

/-- So it is the rounding of the exact quotient. -/
theorem roundHalfUp_eq_round {num den : Nat} (hden : 0 < den) :
    (roundHalfUp num den : Int) = round ((num : ℚ) / den) := by
  have hpos : (den : ℚ) ≠ 0 := by exact_mod_cast hden.ne'
  have hhalf : (num : ℚ) / den + 1 / 2 = ((2 * num + den : Nat) : ℚ) / (2 * den : Nat) := by
    push_cast
    field_simp
  rw [round_eq, hhalf, Rat.floor_natCast_div_natCast, roundHalfUp_eq_div hden]
  rfl

/-- Places are added one by one, as long as the mantissa keeps below `2 ^ 96`. -/
theorem widen_eq (extra mantissa scale : Nat) (hlt : mantissa < twoPow 96) :
    ∃ added ≤ extra, widen extra mantissa scale = (tenPow added * mantissa, scale + added) ∧
      tenPow added * mantissa < twoPow 96 ∧
      (added < extra → twoPow 96 ≤ tenPow (added + 1) * mantissa) := by
  induction extra generalizing mantissa scale with
  | zero =>
      refine ⟨0, Nat.le_refl 0, ?_, ?_, fun h => absurd h (Nat.lt_irrefl 0)⟩
      · rw [tenPow_zero, Nat.one_mul]
        rfl
      · rw [tenPow_zero, Nat.one_mul]
        exact hlt
  | succ extra ih =>
      unfold widen
      split
      · next hroom =>
        obtain ⟨added, hle, hwiden, hfits, hfull⟩ := ih (10 * mantissa) (scale + 1) hroom
        have hshift : ∀ k, tenPow k * (10 * mantissa) = tenPow (k + 1) * mantissa := by
          intro k
          rw [tenPow_succ, Nat.mul_assoc]
        rw [hshift] at hwiden hfits
        rw [hshift] at hfull
        refine ⟨added + 1, Nat.succ_le_succ hle, ?_, hfits, fun h => hfull (by omega)⟩
        rw [hwiden, Nat.add_assoc, Nat.add_comm 1 added]
      · next hroom =>
        refine ⟨0, Nat.zero_le _, ?_, ?_, fun _ => ?_⟩
        · rw [tenPow_zero, Nat.one_mul]
          rfl
        · rw [tenPow_zero, Nat.one_mul]
          exact hlt
        · rw [tenPow_succ, tenPow_zero, Nat.one_mul]
          exact Nat.le_of_not_lt hroom

/-! ### The ledger's numeral -/

/-- A decimal is a signed magnitude. -/
theorem value_eq_sign_mul (d : Decimal) :
    d.value = (if d.negative then -1 else 1) * d.magnitude := by
  unfold value magnitude signed
  cases d.negative with
  | false => simp
  | true => simp [neg_div]

theorem magnitude_nonneg (d : Decimal) : 0 ≤ d.magnitude :=
  div_nonneg (Nat.cast_nonneg _) (tenPow_cast_pos d.scale).le

theorem abs_value (d : Decimal) : |d.value| = d.magnitude := by
  rw [value_eq_sign_mul, abs_mul, abs_of_nonneg d.magnitude_nonneg]
  cases d.negative <;> simp

theorem roundedTo_value (places : Nat) (d : Decimal) :
    roundedTo places d.value =
      (if d.negative then -1 else 1) * (round (d.magnitude * tenPow places) / tenPow places) := by
  rw [roundedTo, abs_value, value_eq_sign_mul]
  rcases d.magnitude_nonneg.eq_or_lt with hzero | hpos
  · -- a zero has no sign to keep, and rounds to zero
    rw [← hzero]
    simp
  · cases d.negative with
    | false => simp [sign_pos hpos]
    | true => simp [sign_neg (neg_lt_zero.2 hpos)]

theorem magnitude_mul_tenPow (d : Decimal) (added : Nat) :
    d.magnitude * tenPow (d.scale + added) = tenPow added * d.mantissa := by
  have hpos := (tenPow_cast_pos d.scale).ne'
  rw [magnitude, tenPow_add, Nat.cast_mul, ← mul_assoc, div_mul_cancel₀ _ hpos, mul_comm]

theorem magnitude_mul_tenPow_mono (d : Decimal) {k l : Nat} (hle : k ≤ l) :
    d.magnitude * tenPow k ≤ d.magnitude * tenPow l := by
  have hten : tenPow k ≤ tenPow l := Nat.pow_le_pow_right (by decide) hle
  exact mul_le_mul_of_nonneg_left (by exact_mod_cast hten) d.magnitude_nonneg

/-- A numeral writes a decimal in the ledger's form: it has the sign of the decimal, denotes it
rounded to the ledger's places, and has as many of them as keep the digits below `2 ^ 96`. -/
structure WrittenBy (d : Decimal) (n : PlainNumeral) : Prop where
  negative : n.negative = d.negative
  value : n.value = roundedTo ledgerPlaces d.value
  places : ∀ k, k ≤ n.places.length ↔
    k ≤ ledgerPlaces ∧ d.magnitude * tenPow k < (twoPow 96 : Nat)

/-- What mantissa and places of the ledger's form come to. -/
structure HasParts (d : Decimal) (mantissa places : Nat) : Prop where
  quotient : (mantissa / tenPow places : ℚ) =
    round (d.magnitude * tenPow ledgerPlaces) / tenPow ledgerPlaces
  places : ∀ k, k ≤ places ↔ k ≤ ledgerPlaces ∧ d.magnitude * tenPow k < (twoPow 96 : Nat)

theorem HasParts.of_zero (hzero : d.isZero = true) : d.HasParts 0 ledgerPlaces := by
  have hmagnitude : d.magnitude = 0 := by
    rw [magnitude, beq_iff_eq.1 hzero, Nat.cast_zero, zero_div]
  constructor
  case quotient => simp [hmagnitude]
  case places =>
    intro k
    rw [hmagnitude, zero_mul]
    refine (and_iff_left ?_).symm
    exact_mod_cast Nat.pow_pos (by decide)

/-- A decimal of more places is rounded, and all places are there. -/
theorem HasParts.of_lt (hlt : ledgerPlaces < d.scale) :
    d.HasParts (roundHalfUp d.mantissa (tenPow (d.scale - ledgerPlaces))) ledgerPlaces := by
  have hscale : d.scale = (d.scale - ledgerPlaces) + ledgerPlaces := by omega
  constructor
  case quotient =>
    have hexact : d.magnitude * tenPow ledgerPlaces =
        d.mantissa / tenPow (d.scale - ledgerPlaces) := by
      have hsplit : tenPow d.scale = tenPow (d.scale - ledgerPlaces) * tenPow ledgerPlaces := by
        rw [← tenPow_add, ← hscale]
      rw [magnitude, hsplit, Nat.cast_mul, ← div_div,
        div_mul_cancel₀ _ (tenPow_cast_pos ledgerPlaces).ne']
    rw [hexact, ← roundHalfUp_eq_round (tenPow_pos _), Int.cast_natCast]
  case places =>
    refine fun k => ⟨fun hk => ⟨hk, ?_⟩, And.left⟩
    calc d.magnitude * tenPow k
        ≤ d.magnitude * tenPow (d.scale + 0) := d.magnitude_mul_tenPow_mono (by omega)
      _ = d.mantissa := by rw [magnitude_mul_tenPow, tenPow_zero, Nat.cast_one, one_mul]
      _ < (twoPow 96 : Nat) := by exact_mod_cast d.mantissa_lt

/-- A decimal of fewer places gets more of them, and stays the same number. -/
theorem HasParts.of_le (hle : d.scale ≤ ledgerPlaces) :
    d.HasParts (widen (ledgerPlaces - d.scale) d.mantissa d.scale).1
      (widen (ledgerPlaces - d.scale) d.mantissa d.scale).2 := by
  obtain ⟨added, hadded, hwiden, hfits, hfull⟩ :=
    widen_eq (ledgerPlaces - d.scale) d.mantissa d.scale d.mantissa_lt
  rw [hwiden]
  constructor
  case quotient =>
    have hwhole : d.magnitude * tenPow ledgerPlaces =
        ((tenPow (ledgerPlaces - d.scale) * d.mantissa : Nat) : Int) := by
      have hmagnitude := d.magnitude_mul_tenPow (ledgerPlaces - d.scale)
      rw [Nat.add_sub_cancel' hle] at hmagnitude
      rw [hmagnitude]
      push_cast
      rfl
    have hround : (round (d.magnitude * tenPow ledgerPlaces) : ℚ) =
        d.magnitude * tenPow ledgerPlaces := by
      rw [hwhole, round_intCast]
    have hsame := d.magnitude_mul_tenPow added
    rw [hround, mul_div_cancel_right₀ _ (tenPow_cast_pos _).ne', Nat.cast_mul, ← hsame,
      mul_div_cancel_right₀ _ (tenPow_cast_pos _).ne']
  case places =>
    intro k
    constructor
    · intro hk
      refine ⟨by omega, ?_⟩
      calc d.magnitude * tenPow k
          ≤ d.magnitude * tenPow (d.scale + added) := d.magnitude_mul_tenPow_mono hk
        _ = (tenPow added * d.mantissa : Nat) := by
            rw [magnitude_mul_tenPow, Nat.cast_mul]
        _ < (twoPow 96 : Nat) := by exact_mod_cast hfits
    · rintro ⟨hk, hlt⟩
      by_contra hmore
      -- one more place than were added does not fit, and `k` is at least one more
      have hover : ((twoPow 96 : Nat) : ℚ) ≤ tenPow (added + 1) * d.mantissa := by
        exact_mod_cast hfull (by omega)
      rw [← magnitude_mul_tenPow] at hover
      have hmono := d.magnitude_mul_tenPow_mono (show d.scale + (added + 1) ≤ k by omega)
      linarith

theorem hasParts_ledgerParts (d : Decimal) : d.HasParts d.ledgerParts.1 d.ledgerParts.2 := by
  unfold ledgerParts
  split
  · next hzero => exact .of_zero hzero
  · split
    · next hlt => exact .of_lt hlt
    · next hle => exact .of_le (Nat.le_of_not_lt hle)

/-- **Every decimal is written in the ledger's form.** -/
theorem exists_ledgerNumeral (d : Decimal) :
    ∃ n : PlainNumeral, n.Writes d.ledgerText ∧ d.WrittenBy n := by
  have hparts := d.hasParts_ledgerParts
  refine ⟨partsNumeral d.negative d.ledgerParts.1 d.ledgerParts.2, partsNumeral_writes _ _ _, ?_⟩
  constructor
  case negative => rfl
  case value => rw [value_partsNumeral, hparts.quotient, roundedTo_value]
  case places =>
    rw [length_places_partsNumeral]
    exact hparts.places

/-- All places are there where the number has few enough digits before the point. -/
theorem WrittenBy.length_places {n : PlainNumeral} (h : d.WrittenBy n) :
    n.places.length = ledgerPlaces ↔ |d.value| * tenPow ledgerPlaces < (twoPow 96 : Nat) := by
  have hall := h.places ledgerPlaces
  have hmost := (h.places n.places.length).1 (Nat.le_refl _)
  rw [abs_value]
  constructor
  · intro hlen
    exact (hall.1 hlen.ge).2
  · intro hlt
    exact Nat.le_antisymm hmost.1 (hall.2 ⟨Nat.le_refl _, hlt⟩)

end Decimal

/-! ## The texts of events -/

/-- What an event shows of its position, if it shows more than its number. -/
def Event.summary? : Event → Option PositionSummary
  | opened position => some position
  | collateralAdded position _ => some position
  | closed position _ => some position
  | forceClosed position _ => some position
  | shortfallWrittenOff _ _ _ _ => none
  | interestSkipped _ _ _ => none

/-- What is shown is the summary of a position. -/
def Event.ShowsPosition (x : Event) : Prop :=
  ∀ shown, x.summary? = some shown → ∃ (p : Position) (repaid : Amount), shown = p.summary repaid

namespace Event

theorem showsPosition_of_summary {x : Event} {p : Position} {repaid : Amount}
    (hx : x.summary? = some (p.summary repaid)) : x.ShowsPosition := by
  intro shown hshown
  exact ⟨p, repaid, Option.some.inj (hshown.symm.trans hx)⟩

theorem showsPosition_of_none {x : Event} (hx : x.summary? = none) : x.ShowsPosition := by
  intro shown hshown
  cases hshown.symm.trans hx

theorem summary?_ofClose (shown : PositionSummary) (reason : CloseReason) :
    (ofClose shown reason).summary? = some shown := by
  cases reason with
  | user => rfl
  | takeProfit => rfl
  | liquidation => rfl
  | poolWindDown => rfl

end Event

theorem Settlement.events_showPosition (t : Settlement) : ∀ x ∈ t.events, x.ShowsPosition := by
  intro x hx
  rcases List.mem_append.1 hx with hloss | hclose
  · -- of a loss only the number and the amount are told
    unfold Position.lossEvents at hloss
    split at hloss
    · cases hloss
    · rw [List.mem_singleton.1 hloss]
      exact Event.showsPosition_of_none rfl
  · rw [List.mem_singleton.1 hclose]
    exact Event.showsPosition_of_summary (Event.summary?_ofClose _ _)

section

variable {σ κ : Type} {h : Host σ κ} {op : Operation} {e e' : Engine} {s t : σ} {m d : Nat}

/-- All events that were not drained yet show positions. -/
def Engine.ShowsPositions (e : Engine) : Prop := ∀ x ∈ e.events, x.ShowsPosition

theorem Engine.ShowsPositions.tell {told : List Event} (he : e.ShowsPositions)
    (htold : ∀ x ∈ told, x.ShowsPosition) (hevents : e'.events = e.events ++ told) :
    e'.ShowsPositions := by
  intro x hx
  rw [hevents] at hx
  rcases List.mem_append.1 hx with hold | hnew
  · exact he x hold
  · exact htold x hnew

theorem Engine.ShowsPositions.tellOne {event : Event} (he : e.ShowsPositions)
    (hevent : event.ShowsPosition) (hevents : e'.events = e.events ++ [event]) :
    e'.ShowsPositions :=
  he.tell (fun _ hx => List.mem_singleton.1 hx ▸ hevent) hevents

theorem Engine.Quiet.showsPositions (x : e.Quiet op e') (he : e.ShowsPositions) :
    e'.ShowsPositions := by
  cases x with
  | same => exact he
  | params valid => exact he
  | skip fault found => exact he.tellOne (Event.showsPosition_of_none rfl) rfl
  | unmark k => exact he
  | epoch epoch => exact he
  | drain asked => exact fun _ hx => (List.not_mem_nil hx).elim

theorem Turn.showsPositions (x : Turn h op e s m d e' t) (he : e.ShowsPositions) :
    e'.ShowsPositions := by
  cases x with
  | rest same rests quiet => exact quiet.showsPositions he
  | track pool leverageMax enabled untracked => exact he
  | revise tracked revises => exact he
  | openPosition asked o => exact he.tellOne (Event.showsPosition_of_summary rfl) rfl
  | topUp asked o => exact he.tellOne (Event.showsPosition_of_summary rfl) rfl
  | charge o => exact he
  | close found o asked => exact he.tell o.settlement.events_showPosition o.after_events

theorem Turns.showsPositions (x : Turns h op e s m d e' t) (he : e.ShowsPositions) :
    e'.ShowsPositions := by
  induction x with
  | none => exact he
  | more before last ih => exact last.showsPositions ih

theorem Engine.Reachable.showsPositions (he : e.Reachable) : e.ShowsPositions := by
  induction he with
  | new created =>
      obtain ⟨_, -, hcreated⟩ := except_bind_eq_ok.1 created
      rw [← Except.ok.inj hcreated]
      exact fun _ hx => (List.not_mem_nil hx).elim
  | next before q ih => exact (perform_turns q.host _ q.op q.state).showsPositions ih

end

namespace Sample

theorem largest_text : Decimal.largest.ledgerText = "79228162514264337593543950335" := by
  decide +kernel

/-- The opening of Bob's position is told of with its leverage and its health. -/
theorem unlevered_event :
    ∃ event ∈ (unlevered .usdc).events, ∃ shown, event.summary? = some shown ∧
      shown.leverage = Decimal.one.ledgerText ∧ shown.health = Decimal.largest.ledgerText := by
  have hshown : ((unlevered .usdc).events.filterMap Event.summary?).map
      (fun shown => (shown.leverage, shown.health)) =
        [(Decimal.one.ledgerText, Decimal.largest.ledgerText)] := by
    decide +kernel
  obtain ⟨shown, hmem, htexts⟩ := List.mem_map.1 (hshown ▸ List.mem_singleton_self _)
  obtain ⟨event, hevent, hsummary⟩ := List.mem_filterMap.1 hmem
  obtain ⟨hleverage, hhealth⟩ := Prod.mk.inj htexts
  exact ⟨event, hevent, shown, hsummary, hleverage, hhealth⟩

end Sample

namespace Engine

/-- **Events show decimals in the ledger's form.** Every decimal is written with its sign, at least
one digit, and the number rounded to 18 places, a half away from zero; and the leverage and the
health in every event are decimals so written. All 18 places are there exactly for numbers below
`2 ^ 96 / 10 ^ 18`; a larger one has as many as keep its digits below `2 ^ 96`. -/
theorem events_show_ledger_form (e : Engine) (he : e.Reachable) :
    (∀ d : Decimal, ∃ n : PlainNumeral, n.Writes d.ledgerText ∧ d.WrittenBy n ∧
      (n.places.length = 18 ↔ |d.value| * 10 ^ 18 < 2 ^ 96)) ∧
    ∀ event ∈ e.events, ∀ shown, event.summary? = some shown →
      ∃ leverage health : Decimal,
        shown.leverage = leverage.ledgerText ∧ shown.health = health.ledgerText := by
  constructor
  · intro d
    obtain ⟨n, hwrites, hwritten⟩ := d.exists_ledgerNumeral
    refine ⟨n, hwrites, hwritten, hwritten.length_places.trans ?_⟩
    norm_num [Decimal.ledgerPlaces, tenPow, twoPow]
  · intro event hevent shown hshown
    obtain ⟨p, repaid, rfl⟩ := he.showsPositions event hevent shown hshown
    exact ⟨p.leverage, p.health, rfl, rfl⟩

/-- Bob's leverage of one is told with all places. -/
theorem leverage_of_bob_is_shown :
    (Sample.unlevered .usdc).Reachable ∧
    ∃ event ∈ (Sample.unlevered .usdc).events, ∃ shown, event.summary? = some shown ∧
      (∃ leverage health : Decimal,
        shown.leverage = leverage.ledgerText ∧ shown.health = health.ledgerText) ∧
      ∃ n : PlainNumeral, n.Writes shown.leverage ∧ Decimal.one.WrittenBy n ∧
        n.places.length = 18 := by
  have hreached := Sample.unlevered_reachable .usdc
  obtain ⟨hform, hevents⟩ := events_show_ledger_form (Sample.unlevered .usdc) hreached
  obtain ⟨event, hevent, shown, hshown, hleverage, -⟩ := Sample.unlevered_event
  obtain ⟨n, hwrites, hwritten, hplaces⟩ := hform .one
  have hone : |Decimal.one.value| * 10 ^ 18 < 2 ^ 96 := by
    rw [Decimal.value_one]
    norm_num
  rw [← hleverage] at hwrites
  exact ⟨hreached, event, hevent, shown, hshown, hevents event hevent shown hshown, n, hwrites,
    hwritten, hplaces.2 hone⟩

/-- The health of a position that owes nothing is told without a point: neither do all decimals
have 18 places, nor do all that are told in events. -/
theorem not_all_shown_to_eighteen_places :
    (¬ ∀ d : Decimal, ∃ n : PlainNumeral, n.Writes d.ledgerText ∧ n.places.length = 18) ∧
    ¬ ∀ e : Engine, e.Reachable → ∀ event ∈ e.events, ∀ shown, event.summary? = some shown →
      ∃ n : PlainNumeral, n.Writes shown.health ∧ n.places.length = 18 := by
  obtain ⟨event, hevent, shown, hshown, -, hhealth⟩ := Sample.unlevered_event
  have hnever (n : PlainNumeral) (hwrites : n.Writes Decimal.largest.ledgerText) :
      n.places.length ≠ 18 := by
    intro hplaces
    have hpoint : '.' ∈ Decimal.largest.ledgerText.toList := hwrites ▸ n.point_mem (by omega)
    rw [Sample.largest_text] at hpoint
    exact absurd hpoint (by decide)
  constructor
  · intro hall
    obtain ⟨n, hwrites, hplaces⟩ := hall .largest
    exact hnever n hwrites hplaces
  · intro hall
    have hreached := Sample.unlevered_reachable .usdc
    obtain ⟨n, hwrites, hplaces⟩ := hall _ hreached event hevent shown hshown
    rw [hhealth] at hwrites
    exact hnever n hwrites hplaces

end Engine

end LeveragedLp

import LeveragedLp.Json.Codec
import LeveragedLp.Proofs.DecimalTexts

/-!
# Reading JSON that was written

The reader takes a value off the front of a text and leaves the rest, so each part of the writer
is met by a statement about that part in front of any rest: a character of a string, the digits of
a number, the items of a list. Only a number asks something of the rest, namely that it does not
go on with the number (`Json.EndsNumber`); a comma, a bracket and the end of the text do not.

The fuel of the reader bounds the depth of nesting. The length of the text is always enough, since
each item of a list is shorter than the list. So every grammatical value is the value of its text
(`Json.read?_render`).
-/

set_option autoImplicit false

namespace LeveragedLp

namespace Json

variable {rest : List Char}

/-! ## Strings -/

theorem hexValue?_hexDigit : ∀ n < 16, hexValue? (hexDigit n) = some n := by decide

/-- A character that needs no escape stands for itself. -/
theorem readUnits_cons {c : Char} (hquote : c ≠ '"') (hslash : c ≠ '\\')
    (hcontrol : ¬ c.toNat < 0x20) :
    readUnits (c :: rest) = (readUnits rest).map fun r => (c.toNat :: r.1, r.2) := by
  rw [readUnits.eq_def]
  split
  · next h => cases h
  · next h => exact absurd (List.cons.inj h).1 hquote
  · next h => exact absurd (List.cons.inj h).1 hslash
  · next h => exact absurd (List.cons.inj h).1 hslash
  · next h =>
    obtain ⟨rfl, rfl⟩ := List.cons.inj h
    rw [if_neg (not_or.2 ⟨hcontrol, hslash⟩)]
    cases readUnits rest <;> rfl

/-- A letter behind a backslash stands for the character that has it. -/
theorem readUnits_letter {letter : Char} {n : Nat} (hletter : shortEscape? letter = some n) :
    readUnits ('\\' :: letter :: rest) = (readUnits rest).map fun r => (n :: r.1, r.2) := by
  have hunicode : letter ≠ 'u' := by
    rintro rfl
    cases hletter
  rw [readUnits.eq_def]
  split
  · next h => cases h
  · next h => cases h
  · next h => exact absurd (List.cons.inj (List.cons.inj h).2).1 hunicode
  · next h =>
    obtain ⟨rfl, rfl⟩ := List.cons.inj (List.cons.inj h).2
    rw [hletter]
    cases readUnits rest <;> rfl
  · next hnone h =>
    obtain ⟨hslash, hrest⟩ := List.cons.inj h
    exact (hnone _ _ hslash.symm hrest.symm).elim

/-- What is written for a character is read as its code. -/
theorem readUnits_escapeChar (c : Char) :
    readUnits (escapeChar c ++ rest) = (readUnits rest).map fun r => (c.toNat :: r.1, r.2) := by
  unfold escapeChar
  split_ifs with hquote hslash hback hform hline hreturn htab hcontrol
  · rw [hquote]
    exact readUnits_letter rfl
  · rw [hslash]
    exact readUnits_letter rfl
  · rw [hback]
    exact readUnits_letter rfl
  · rw [hform]
    exact readUnits_letter rfl
  · rw [hline]
    exact readUnits_letter rfl
  · rw [hreturn]
    exact readUnits_letter rfl
  · rw [htab]
    exact readUnits_letter rfl
  · -- two of the four hexadecimal digits are enough
    have hhigh := hexValue?_hexDigit (c.toNat / 16) (by omega)
    have hlow := hexValue?_hexDigit (c.toNat % 16) (by omega)
    have hzero : hexValue? '0' = some 0 := rfl
    have hquad : hexQuad? '0' '0' (hexDigit (c.toNat / 16)) (hexDigit (c.toNat % 16)) =
        some c.toNat := by
      simp only [hexQuad?, hzero, hhigh, hlow, bind, Option.bind, pure]
      exact congrArg some (by omega)
    show readUnits ('\\' :: 'u' :: '0' :: '0' :: hexDigit (c.toNat / 16) ::
      hexDigit (c.toNat % 16) :: rest) = _
    rw [readUnits, hquad]
    cases readUnits rest <;> rfl
  · exact readUnits_cons hquote hslash hcontrol

theorem readUnits_escaped (cs : List Char) :
    readUnits (cs.flatMap escapeChar ++ '"' :: rest) = some (cs.map Char.toNat, rest) := by
  induction cs with
  | nil => rfl
  | cons c cs ih =>
      rw [List.flatMap_cons, List.append_assoc, readUnits_escapeChar, ih]
      rfl

/-- No character is half of a surrogate pair. -/
theorem pairUnits_toNat (cs : List Char) : pairUnits (cs.map Char.toNat) = some cs := by
  induction cs with
  | nil => rfl
  | cons c cs ih =>
      have hvalid : c.toNat < 0xD800 ∨ (0xDFFF < c.toNat ∧ c.toNat < 0x110000) := c.valid
      have hlow : isLowSurrogate c.toNat = false := by
        simp [isLowSurrogate]
        omega
      have hhigh : isHighSurrogate c.toNat = false := by
        simp [isHighSurrogate]
        omega
      rw [List.map_cons, pairUnits.eq_def]
      simp [hlow, hhigh, ih, Char.ofNat_toNat]

/-- The characters of a text are read back from between its quotes. -/
theorem readString_writeText (s : String) :
    readString (s.toList.flatMap escapeChar ++ '"' :: rest) = some (some s, rest) := by
  have htext : unitsText (s.toList.map Char.toNat) = some s := by
    rw [unitsText, pairUnits_toNat, Option.map_some, String.ofList_toList]
  rw [readString, readUnits_escaped]
  show some (unitsText (s.toList.map Char.toNat), rest) = _
  rw [htext]

/-! ## Numbers -/

/-- A text that does not go on with a number in front of it. -/
def EndsNumber : List Char → Prop
  | [] => True
  | c :: _ => c.isDigit = false ∧ c ≠ '.' ∧ c ≠ 'e' ∧ c ≠ 'E'

/-- A text that does not go on with digits in front of it. -/
def EndsDigits : List Char → Prop
  | [] => True
  | c :: _ => c.isDigit = false

theorem EndsNumber.endsDigits (h : EndsNumber rest) : EndsDigits rest := by
  cases rest with
  | nil => trivial
  | cons c rest => exact h.1

/-- No comma and no bracket goes on with a number. -/
theorem endsNumber_cons {c close : Char} {left : List Char}
    (hclose : close.isDigit = false ∧ close ≠ '.' ∧ close ≠ 'e' ∧ close ≠ 'E')
    (hc : c = ',' ∨ c = close) : EndsNumber (c :: left) := by
  rcases hc with rfl | rfl
  · exact ⟨rfl, by decide, by decide, by decide⟩
  · exact hclose

theorem readDigitRun_append {digits : List Char} (hne : digits ≠ [])
    (hdigits : ∀ c ∈ digits, c.isDigit = true) (hrest : EndsDigits rest) :
    readDigitRun (digits ++ rest) = some (digits, rest) := by
  have hstop : rest.takeWhile Char.isDigit = [] ∧ rest.dropWhile Char.isDigit = rest := by
    cases rest with
    | nil => exact ⟨rfl, rfl⟩
    | cons c rest =>
        have hc : c.isDigit = false := hrest
        simp [hc]
  unfold readDigitRun
  rw [List.takeWhile_append_of_pos hdigits, List.dropWhile_append_of_pos hdigits, hstop.1,
    hstop.2, List.append_nil]
  simp [hne]

end Json

namespace Numeral

/-- A number in the form that the grammar asks for. -/
structure Grammatical (n : Numeral) : Prop where
  whole_ne_nil : n.whole ≠ []
  whole_digits : ∀ c ∈ n.whole, c.isDigit = true
  /-- A zero stands alone before the point. -/
  no_zero : ∀ rest, n.whole = '0' :: rest → rest = []
  fraction_digits : ∀ c ∈ n.fraction, c.isDigit = true
  exponent : ∀ negative digits, n.exponent = some (negative, digits) →
    digits ≠ [] ∧ ∀ c ∈ digits, c.isDigit = true

/-- The digits of a natural number have no zero in front, by induction on its tenths. -/
theorem toDigits_of_pos (n : Nat) (hpos : 0 < n) :
    ∃ c rest, Nat.toDigits 10 n = c :: rest ∧ c ≠ '0' := by
  induction n using Nat.strongRecOn with
  | _ n ih =>
    by_cases hone : n < 10
    · have hdigit : ∀ d < 10, 0 < d → Nat.digitChar d ≠ '0' := by decide
      exact ⟨_, [], Nat.toDigits_of_lt_base hone, hdigit n hone hpos⟩
    · have hmore : 10 ≤ n := Nat.le_of_not_lt hone
      obtain ⟨c, rest, hfront, hc⟩ := ih (n / 10) (by omega) (by omega)
      refine ⟨c, rest ++ [Nat.digitChar (n % 10)], ?_, hc⟩
      rw [Nat.toDigits_of_base_le (by decide) hmore, hfront]
      rfl

theorem grammatical_ofNat (n : Nat) : (ofNat n).Grammatical where
  whole_ne_nil := Nat.toDigits_ne_nil
  whole_digits := fun _ hc => Nat.isDigit_of_mem_toDigits (by decide) (by decide) hc
  no_zero := by
    intro rest hzero
    change Nat.toDigits 10 n = '0' :: rest at hzero
    rcases Nat.eq_zero_or_pos n with rfl | hpos
    · exact (List.cons.inj hzero).2.symm
    · obtain ⟨c, others, hdigits, hc⟩ := toDigits_of_pos n hpos
      rw [hdigits] at hzero
      exact absurd (List.cons.inj hzero).1 hc
  fraction_digits := fun _ hc => (List.not_mem_nil hc).elim
  exponent := fun _ _ h => by cases h

end Numeral

namespace Json

variable {rest : List Char} {n : Numeral}

theorem readWhole_append (hn : n.Grammatical) (hrest : EndsDigits rest) :
    readWhole (n.whole ++ rest) = some (n.whole, rest) := by
  have hrun := readDigitRun_append hn.whole_ne_nil hn.whole_digits hrest
  cases hwhole : n.whole with
  | nil => exact absurd hwhole hn.whole_ne_nil
  | cons c others =>
      rw [hwhole] at hrun
      by_cases hzero : c = '0'
      · subst hzero
        rw [hn.no_zero others hwhole]
        rfl
      · rw [← hrun, List.cons_append, readWhole]
        intro left h
        exact hzero (List.cons.inj h).1

/-- What is written for the digits behind a point. -/
def fractionText (fraction : List Char) : List Char :=
  if fraction.isEmpty then [] else '.' :: fraction

/-- What is written for an exponent. -/
def exponentText : Option (Bool × List Char) → List Char
  | none => []
  | some (negative, digits) => 'e' :: (if negative then '-' :: digits else digits)

theorem endsDigits_fractionText (fraction : List Char) (hrest : EndsDigits rest) :
    EndsDigits (fractionText fraction ++ rest) := by
  cases fraction with
  | nil => exact hrest
  | cons c fraction => exact (rfl : '.'.isDigit = false)

theorem endsDigits_exponentText (exponent : Option (Bool × List Char)) (hrest : EndsNumber rest) :
    EndsDigits (exponentText exponent ++ rest) := by
  cases exponent with
  | none => exact hrest.endsDigits
  | some e => exact (rfl : 'e'.isDigit = false)

theorem exponentText_ne_point (exponent : Option (Bool × List Char)) (hrest : EndsNumber rest)
    (left : List Char) : exponentText exponent ++ rest ≠ '.' :: left := by
  intro h
  cases exponent with
  | none =>
      change rest = '.' :: left at h
      rw [h] at hrest
      exact hrest.2.1 rfl
  | some e => cases (List.cons.inj h).1

theorem readFraction_append (hn : n.Grammatical) (hrest : EndsDigits rest)
    (hpoint : ∀ left, rest ≠ '.' :: left) :
    readFraction (fractionText n.fraction ++ rest) = some (n.fraction, rest) := by
  cases hfraction : n.fraction with
  | nil =>
      show readFraction rest = some ([], rest)
      rw [readFraction.eq_def]
      split
      · next left => exact absurd rfl (hpoint left)
      · rfl
  | cons c others =>
      have hdigits := hn.fraction_digits
      rw [hfraction] at hdigits
      exact readDigitRun_append (List.cons_ne_nil c others) hdigits hrest

theorem readExponent_append (hn : n.Grammatical) (hrest : EndsNumber rest) :
    readExponent (exponentText n.exponent ++ rest) = some (n.exponent, rest) := by
  cases hexponent : n.exponent with
  | none =>
      show readExponent rest = some (none, rest)
      cases rest with
      | nil => rfl
      | cons c rest =>
          obtain ⟨-, -, hlower, hupper⟩ := hrest
          rw [readExponent.eq_def]
          split
          · next h => exact absurd (List.cons.inj h).1 hlower
          · next h => exact absurd (List.cons.inj h).1 hupper
          · rfl
  | some e =>
      obtain ⟨negative, digits⟩ := e
      obtain ⟨hne, hdigits⟩ := hn.exponent negative digits hexponent
      have hrun := readDigitRun_append hne hdigits hrest.endsDigits
      cases negative with
      | true =>
          show (readDigitRun (digits ++ rest)).map _ = _
          rw [hrun]
          rfl
      | false =>
          show readExponentDigits (digits ++ rest) = _
          rw [readExponentDigits.eq_def]
          split
          · next left h => exact absurd h (digits_append_ne hne hdigits (by decide))
          · next left h => exact absurd h (digits_append_ne hne hdigits (by decide))
          · rw [hrun]
            rfl

theorem readUnsigned_append (hn : n.Grammatical) (hrest : EndsNumber rest) :
    readUnsigned n.negative
      (n.whole ++ (fractionText n.fraction ++ (exponentText n.exponent ++ rest))) =
        some (n, rest) := by
  have hexponent := endsDigits_exponentText n.exponent hrest
  have hfraction := endsDigits_fractionText n.fraction hexponent
  rw [readUnsigned, readWhole_append hn hfraction]
  show (readFraction _ >>= _) = _
  rw [readFraction_append hn hexponent (exponentText_ne_point n.exponent hrest)]
  show (readExponent _ >>= _) = _
  rw [readExponent_append hn hrest]
  rfl

theorem writeNumeral_eq (n : Numeral) :
    writeNumeral n = (if n.negative then ['-'] else []) ++
      (n.whole ++ (fractionText n.fraction ++ exponentText n.exponent)) := by
  show (if n.negative then ['-'] else []) ++ n.whole ++ fractionText n.fraction ++
    exponentText n.exponent = _
  rw [List.append_assoc, List.append_assoc]

/-- **A number is read back from its text**, in front of any text that does not go on with it. -/
theorem readNumeral_writeNumeral (hn : n.Grammatical) (hrest : EndsNumber rest) :
    readNumeral (writeNumeral n ++ rest) = some (n, rest) := by
  have hunsigned := readUnsigned_append hn hrest
  rw [writeNumeral_eq]
  simp only [List.append_assoc]
  cases hsign : n.negative with
  | true =>
      rw [hsign] at hunsigned
      exact hunsigned
  | false =>
      rw [hsign] at hunsigned
      rw [if_neg Bool.false_ne_true, List.nil_append, readNumeral.eq_def]
      split
      · next left h => exact absurd h (digits_append_ne hn.whole_ne_nil hn.whole_digits (by decide))
      · exact hunsigned

/-! ## Lists -/

/-- A text that begins with neither a blank nor a given character. -/
def BeginsApartFrom (close : Char) (cs : List Char) : Prop :=
  ∃ c left, cs = c :: left ∧ isBlank c = false ∧ c ≠ close

theorem skipBlanks_cons {c : Char} {left : List Char} (hc : isBlank c = false) :
    skipBlanks (c :: left) = c :: left := by
  simp [skipBlanks, hc]

section

variable {α : Type} {text : α → List Char} {item : List Char → Option (α × List Char)}
variable {close : Char}

/-- The texts of items with commas between them, up to the closing bracket. -/
def joined (text : α → List Char) (close : Char) : List α → List Char
  | [] => [close]
  | [x] => text x ++ [close]
  | x :: y :: ys => text x ++ ',' :: joined text close (y :: ys)

/-- There is a comma or a bracket behind each item. -/
theorem length_lt_joined {x : α} {xs : List α} (hx : x ∈ xs) :
    (text x).length < (joined text close xs).length := by
  induction xs with
  | nil => cases hx
  | cons y ys ih =>
      cases ys with
      | nil =>
          rw [List.mem_singleton.1 hx]
          simp [joined]
      | cons z zs =>
          rcases List.mem_cons.1 hx with rfl | hlater
          · simp [joined]
          · have hrest := ih hlater
            simp only [joined, List.length_append, List.length_cons]
            omega

theorem length_le_joined (xs : List α) : xs.length ≤ (joined text close xs).length := by
  induction xs with
  | nil => exact Nat.zero_le _
  | cons y ys ih =>
      cases ys with
      | nil => simp [joined]
      | cons z zs =>
          simp only [joined, List.length_append, List.length_cons] at ih ⊢
          omega

/-- Items are read back if each of them is, in front of a comma and of the closing bracket. -/
theorem readItems_joined (hclose : isBlank close = false) (hcomma : close ≠ ',')
    {xs : List α} (hne : xs ≠ [])
    (hitem : ∀ x ∈ xs, ∀ c left, c = ',' ∨ c = close →
      item (text x ++ c :: left) = some (x, c :: left))
    {fuel : Nat} (hfuel : xs.length ≤ fuel) :
    readItems item close fuel (joined text close xs ++ rest) = some (xs, rest) := by
  induction xs generalizing fuel with
  | nil => exact absurd rfl hne
  | cons x xs ih =>
      obtain ⟨fuel, rfl⟩ := Nat.exists_eq_succ_of_ne_zero (n := fuel) (by
        simp only [List.length_cons] at hfuel
        omega)
      have hfirst := hitem x List.mem_cons_self
      cases xs with
      | nil =>
          have hlast := hfirst close rest (.inr rfl)
          simp [joined, readItems, hlast, skipBlanks_cons hclose]
      | cons y ys =>
          have hnext := hfirst ',' (joined text close (y :: ys) ++ rest) (.inl rfl)
          have hothers := ih (List.cons_ne_nil y ys)
            (fun z hz => hitem z (List.mem_cons_of_mem x hz)) (Nat.le_of_succ_le_succ hfuel)
          have hblank : isBlank ',' = false := rfl
          simp [joined, readItems, hnext, skipBlanks_cons hblank, hcomma.symm, hothers]

/-- A list is read back from behind its opening bracket, if no item looks like its end. -/
theorem readList_joined (hclose : isBlank close = false) (hcomma : close ≠ ',') {xs : List α}
    (hitem : ∀ x ∈ xs, ∀ c left, c = ',' ∨ c = close →
      item (text x ++ c :: left) = some (x, c :: left))
    (hbegins : ∀ x ∈ xs, BeginsApartFrom close (text x))
    {fuel : Nat} (hfuel : xs.length ≤ fuel) :
    readList item close fuel (joined text close xs ++ rest) = some (xs, rest) := by
  cases xs with
  | nil => simp [joined, readList, skipBlanks_cons hclose]
  | cons x xs =>
      have hitems : readItems item close fuel (joined text close (x :: xs) ++ rest) =
          some (x :: xs, rest) :=
        readItems_joined hclose hcomma (List.cons_ne_nil x xs) hitem hfuel
      obtain ⟨c, left, htext, hblank, hc⟩ := hbegins x List.mem_cons_self
      obtain ⟨others, hjoined⟩ : ∃ others, joined text close (x :: xs) ++ rest = c :: others := by
        cases xs with
        | nil => exact ⟨_, by rw [joined, htext]; rfl⟩
        | cons y ys => exact ⟨_, by rw [joined, htext]; rfl⟩
      rw [hjoined] at hitems ⊢
      rw [readList, skipBlanks_cons hblank]
      simp [hc, hitems]

end

theorem writeItems_eq_joined (items : List Json) : writeItems items = joined write ']' items := by
  induction items with
  | nil => rfl
  | cons item items ih =>
      cases items with
      | nil => rw [writeItems, joined]
      | cons next others =>
          rw [writeItems, joined, ih]
          simp

/-- What is written for a member of an object. -/
def memberText (m : Option String × Json) : List Char :=
  writeText (m.1.getD "") ++ ':' :: write m.2

theorem writeMembers_eq_joined (members : List (Option String × Json)) :
    writeMembers members = joined memberText '\x7d' members := by
  induction members with
  | nil => rfl
  | cons m members ih =>
      obtain ⟨name, value⟩ := m
      cases members with
      | nil =>
          rw [writeMembers, joined]
          simp [memberText]
      | cons next others =>
          rw [writeMembers, joined, ih]
          · simp [memberText]
          · simp

/-! ## Values -/

/-- A value whose strings are texts and whose numbers are grammatical. -/
inductive Grammatical : Json → Prop
  | null : Grammatical .null
  | bool (b : Bool) : Grammatical (.bool b)
  | number {n : Numeral} (hn : n.Grammatical) : Grammatical (.number n)
  | string (s : String) : Grammatical (.string (some s))
  | array {items : List Json} (hitems : ∀ item ∈ items, Grammatical item) :
      Grammatical (.array items)
  | object {members : List (Option String × Json)} (hnames : ∀ m ∈ members, m.1.isSome = true)
      (hvalues : ∀ m ∈ members, Grammatical m.2) : Grammatical (.object members)

/-- A value is read back from its text, in front of any text that does not go on with a number. -/
def ReadsBack (j : Json) : Prop :=
  ∀ fuel rest, j.write.length ≤ fuel → EndsNumber rest →
    readValue fuel (j.write ++ rest) = some (j, rest)

/-- The text of a number begins with a digit or a minus. -/
theorem writeNumeral_begins {n : Numeral} (hn : n.Grammatical) :
    ∃ c left, writeNumeral n = c :: left ∧ (c.isDigit = true ∨ c = '-') := by
  rw [writeNumeral_eq]
  cases n.negative with
  | true => exact ⟨'-', _, rfl, .inr rfl⟩
  | false =>
      cases hwhole : n.whole with
      | nil => exact absurd hwhole hn.whole_ne_nil
      | cons c others =>
          exact ⟨c, _, rfl, .inl (hn.whole_digits c (hwhole ▸ List.mem_cons_self))⟩

/-- No blank, bracket, quote or letter begins a number. -/
theorem ne_of_begins_number {c d : Char} (hc : c.isDigit = true ∨ c = '-')
    (hd : d.isDigit = false ∧ d ≠ '-') : c ≠ d := by
  rintro rfl
  rcases hc with hdigit | hminus
  · exact Bool.false_ne_true (hd.1.symm.trans hdigit)
  · exact hd.2 hminus

theorem isBlank_of_begins_number {c : Char} (hc : c.isDigit = true ∨ c = '-') :
    isBlank c = false := by
  have hne (d : Char) (hd : d.isDigit = false ∧ d ≠ '-') : c ≠ d := ne_of_begins_number hc hd
  simp [isBlank, hne ' ' (by decide), hne '\t' (by decide), hne '\n' (by decide),
    hne '\r' (by decide)]

/-- The text of a value begins with neither a blank nor a closing bracket. -/
theorem Grammatical.begins {j : Json} (hj : j.Grammatical) : BeginsApartFrom ']' j.write := by
  cases hj with
  | null => exact ⟨'n', _, by rw [write], by decide, by decide⟩
  | bool b =>
      cases b with
      | true => exact ⟨'t', _, by rw [write], by decide, by decide⟩
      | false => exact ⟨'f', _, by rw [write], by decide, by decide⟩
  | number hn =>
      obtain ⟨c, left, htext, hc⟩ := writeNumeral_begins hn
      exact ⟨c, left, by rw [write, htext], isBlank_of_begins_number hc,
        ne_of_begins_number hc (by decide)⟩
  | string s => exact ⟨'"', _, by rw [write]; rfl, by decide, by decide⟩
  | array hitems => exact ⟨'[', _, by rw [write], by decide, by decide⟩
  | object hnames hvalues => exact ⟨'\x7b', _, by rw [write], by decide, by decide⟩

/-! ### Each kind of value -/

theorem readValue_bool (b : Bool) (fuel : Nat) :
    readValue (fuel + 1) (write (.bool b) ++ rest) = some (.bool b, rest) := by
  cases b with
  | true => rfl
  | false => rfl

theorem readValue_number {n : Numeral} (hn : n.Grammatical) (fuel : Nat)
    (hrest : EndsNumber rest) :
    readValue (fuel + 1) (write (.number n) ++ rest) = some (.number n, rest) := by
  have hread := readNumeral_writeNumeral hn hrest
  obtain ⟨c, left, htext, hc⟩ := writeNumeral_begins hn
  rw [htext, List.cons_append] at hread
  rw [write, htext, List.cons_append, readValue, skipBlanks_cons (isBlank_of_begins_number hc)]
  split
  case h_7 => rw [hread]; rfl
  all_goals
    next h => exact absurd (List.cons.inj h).1 (ne_of_begins_number hc (by decide))

theorem readValue_string (s : String) (fuel : Nat) :
    readValue (fuel + 1) (write (.string (some s)) ++ rest) = some (.string (some s), rest) := by
  have htext : write (.string (some s)) ++ rest =
      '"' :: (s.toList.flatMap escapeChar ++ '"' :: rest) := by
    simp [write, writeText]
  rw [htext]
  show (readString _).map _ = _
  rw [readString_writeText]
  rfl

theorem readValue_array {items : List Json} (hitems : ∀ item ∈ items, item.Grammatical)
    (hread : ∀ item ∈ items, item.ReadsBack) {fuel : Nat}
    (hfuel : (write (.array items)).length ≤ fuel + 1) :
    readValue (fuel + 1) (write (.array items) ++ rest) = some (.array items, rest) := by
  rw [write, writeItems_eq_joined, List.length_cons] at hfuel
  have hlist : readList (readValue fuel) ']' fuel (joined write ']' items ++ rest) =
      some (items, rest) := by
    apply readList_joined (by decide) (by decide)
    · intro item hmem c left hc
      have hshorter : (write item).length < (joined write ']' items).length :=
        length_lt_joined hmem
      exact hread item hmem fuel (c :: left) (by omega) (endsNumber_cons (by decide) hc)
    · exact fun item hmem => (hitems item hmem).begins
    · have hcount : items.length ≤ (joined write ']' items).length := length_le_joined items
      omega
  rw [write, writeItems_eq_joined, List.cons_append]
  show (readList (readValue fuel) ']' fuel (joined write ']' items ++ rest)).map _ = _
  rw [hlist]
  rfl

/-- A member is read back if its value is. -/
theorem readMember_memberText {m : Option String × Json} (hname : m.1.isSome = true) {fuel : Nat}
    {c : Char} {left : List Char} (hread : m.2.ReadsBack) (hfuel : (memberText m).length ≤ fuel)
    (hends : EndsNumber (c :: left)) :
    readMember (readValue fuel) (memberText m ++ c :: left) = some (m, c :: left) := by
  obtain ⟨name, value⟩ := m
  obtain ⟨s, rfl⟩ := Option.isSome_iff_exists.1 hname
  have htext : memberText (some s, value) ++ c :: left =
      '"' :: (s.toList.flatMap escapeChar ++ '"' :: ':' :: (write value ++ c :: left)) := by
    simp [memberText, writeText]
  have hshorter : (write value).length ≤ (memberText (some s, value)).length := by
    simp only [memberText, List.length_append, List.length_cons]
    omega
  have hvalue := hread fuel (c :: left) (Nat.le_trans hshorter hfuel) hends
  have hquote : isBlank '"' = false := rfl
  have hcolon : isBlank ':' = false := rfl
  rw [htext]
  simp [readMember, skipBlanks_cons hquote, readString_writeText, skipBlanks_cons hcolon, hvalue]

theorem readValue_object {members : List (Option String × Json)}
    (hnames : ∀ m ∈ members, m.1.isSome = true) (hread : ∀ m ∈ members, m.2.ReadsBack)
    {fuel : Nat} (hfuel : (write (.object members)).length ≤ fuel + 1) :
    readValue (fuel + 1) (write (.object members) ++ rest) = some (.object members, rest) := by
  rw [write, writeMembers_eq_joined, List.length_cons] at hfuel
  have hlist : readList (readMember (readValue fuel)) '\x7d' fuel
      (joined memberText '\x7d' members ++ rest) = some (members, rest) := by
    apply readList_joined (by decide) (by decide)
    · intro m hmem c left hc
      have hshorter : (memberText m).length < (joined memberText '\x7d' members).length :=
        length_lt_joined hmem
      exact readMember_memberText (hnames m hmem) (hread m hmem) (by omega)
        (endsNumber_cons (by decide) hc)
    · exact fun m _ => ⟨'"', _, rfl, by decide, by decide⟩
    · have hcount : members.length ≤ (joined memberText '\x7d' members).length :=
        length_le_joined members
      omega
  rw [write, writeMembers_eq_joined, List.cons_append]
  show (readList (readMember (readValue fuel)) '\x7d' fuel
    (joined memberText '\x7d' members ++ rest)).map _ = _
  rw [hlist]
  rfl

/-- No text is empty, so there is fuel to begin with. -/
theorem Grammatical.readsBack_of_succ {j : Json} (hj : j.Grammatical)
    (hread : ∀ fuel rest, j.write.length ≤ fuel + 1 → EndsNumber rest →
      readValue (fuel + 1) (j.write ++ rest) = some (j, rest)) : j.ReadsBack := by
  intro fuel rest hfuel hrest
  obtain ⟨c, left, htext, -⟩ := hj.begins
  cases fuel with
  | zero =>
      rw [htext] at hfuel
      exact absurd hfuel (Nat.not_succ_le_zero _)
  | succ fuel => exact hread fuel rest hfuel hrest

/-- **A value is read back from its text**, by induction on the grammar. -/
theorem Grammatical.readsBack {j : Json} (hj : j.Grammatical) : j.ReadsBack := by
  induction hj with
  | null => exact null.readsBack_of_succ fun _ _ _ _ => rfl
  | bool b => exact (bool b).readsBack_of_succ fun fuel _ _ _ => readValue_bool b fuel
  | number hn =>
      exact (number hn).readsBack_of_succ fun fuel _ _ hrest => readValue_number hn fuel hrest
  | string s => exact (string s).readsBack_of_succ fun fuel _ _ _ => readValue_string s fuel
  | array hitems ih =>
      exact (array hitems).readsBack_of_succ fun _ _ hfuel _ => readValue_array hitems ih hfuel
  | object hnames hvalues ih =>
      exact (object hnames hvalues).readsBack_of_succ fun _ _ hfuel _ =>
        readValue_object hnames ih hfuel

/-- **A text is read as the value that it was written for.** -/
theorem read?_render {j : Json} (hj : j.Grammatical) : read? j.render = some j := by
  have hread := hj.readsBack (j.write.length + 1) [] (Nat.le_succ _) trivial
  rw [List.append_nil] at hread
  simp [read?, render, hread, skipBlanks]

end Json

end LeveragedLp

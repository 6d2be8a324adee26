import LeveragedLp.Decimal.Text

/-!
# Reading decimals

A decimal is written with an optional sign, digits, and at most one point; behind the first digit
underscores may stand between the digits. Of a text with more places than a decimal has, the
first digit without a place rounds, and the digits behind it count for nothing. A text with an
exponent moves the point of the decimal before it; places that the point would move beyond the
last are rounded off.
-/

set_option autoImplicit false

namespace LeveragedLp

namespace Decimal

/-- The number a digit stands for. -/
def digitValue (c : Char) : Nat := c.toNat - '0'.toNat

/-- The decimal of a row of digits. The count of places begins again at zero after the last place,
which only a row with underscores there can pass. -/
def ofRow? (negative : Bool) (mantissa places : Nat) : Option Decimal :=
  ofParts? negative mantissa (places % 29)

/-- The decimal that keeps the first `places` places of a longer row whose next digit is `next`.
A mantissa that grows out of its 96 bits loses its last place. -/
def roundedAt (negative : Bool) (mantissa places next : Nat) : Option Decimal :=
  if next < 5 then ofRow? negative mantissa places
  else if mantissa + 1 < twoPow 96 then ofRow? negative (mantissa + 1) places
  else if places = 0 then none
  else ofRow? negative ((mantissa + 1 + 4) / 10) (places - 1)

/-- Whether only digits and underscores are left. -/
def isTail (chars : List Char) : Bool := chars.all fun c => c.isDigit || c == '_'

/-- Mantissas whose row of digits ends at an underscore behind the last place. Behind a longer
mantissa the row goes on. -/
def isShort (mantissa : Nat) : Bool := mantissa / 10 < twoPow 64 / 10 - 255

/-- Reads on after the sign. `point` tells whether a point was read, `digits` whether a digit was,
`ahead` whether the last place was left behind by an underscore; `mantissa` and `places` are those
of the digits so far. -/
def readDigits (negative : Bool) :
    (point digits ahead : Bool) → (mantissa places : Nat) → List Char → Option Decimal
  | _, digits, _, mantissa, places, [] => if digits then ofRow? negative mantissa places else none
  | point, digits, ahead, mantissa, places, c :: rest =>
    if c.isDigit then
      let extended := 10 * mantissa + digitValue c
      if (28 ≤ places ∧ !ahead) ∨ (point ∧ twoPow 96 ≤ extended) then
        if isTail rest then roundedAt negative mantissa places (digitValue c) else none
      else if twoPow 96 ≤ extended then none
      else readDigits negative point true false extended (if point then places + 1 else 0) rest
    else if c = '.' ∧ !point then readDigits negative true digits false mantissa places rest
    else if c = '_' ∧ digits then
      if 28 ≤ places ∧ !ahead ∧ isShort mantissa then
        if isTail rest then ofRow? negative mantissa places else none
      else readDigits negative point digits (28 ≤ places) mantissa places rest
    else none

/-- A zero has no sign. -/
def unsignedZero (d : Decimal) : Decimal := { d with negative := d.negative && !d.isZero }

/-- Reads a text without an exponent. -/
def ofPlainChars? : List Char → Option Decimal
  | '-' :: rest => (readDigits true false false false 0 0 rest).map unsignedZero
  | '+' :: rest => readDigits false false false false 0 0 rest
  | chars => readDigits false false false false 0 0 chars

/-! ## Exponents -/

/-- Reads the digits of an exponent, after an optional plus. -/
def readExponent? (chars : List Char) : Option Nat :=
  let digits := match chars with
    | '+' :: rest => rest
    | _ => chars
  if !digits.isEmpty && digits.all Char.isDigit && Nat.ofDigitChars 10 digits 0 < twoPow 32 then
    some (Nat.ofDigitChars 10 digits 0)
  else none

/-- The decimal with the point moved to the left, by no more than all places. Where places run
out, the last ones are rounded off first, a half away from zero. -/
def shiftLeft? (d : Decimal) (places : Nat) : Option Decimal :=
  if 28 < places then none
  else if d.scale + places ≤ 28 then ofParts? d.negative d.mantissa (d.scale + places)
  else ofParts? d.negative (roundHalfUp d.mantissa (tenPow (d.scale + places - 28))) 28

/-- The decimal with the point moved to the right. -/
def shiftRight? (d : Decimal) (places : Nat) : Option Decimal :=
  if places ≤ d.scale then ofParts? d.negative d.mantissa (d.scale - places)
  else if places ≤ 28 then ofParts? d.negative (d.mantissa * tenPow (places - d.scale)) 0
  else none

/-- Whether a character parts a decimal from its exponent. -/
def isExponentMark (c : Char) : Bool := c == 'e' || c == 'E'

/-- Reads a text with an exponent. -/
def ofScientificChars? (chars : List Char) : Option Decimal := do
  let base ← ofPlainChars? (chars.takeWhile fun c => !isExponentMark c)
  match chars.dropWhile fun c => !isExponentMark c with
  | _ :: '-' :: exponent => base.shiftLeft? (← readExponent? exponent)
  | _ :: exponent => base.shiftRight? (← readExponent? exponent)
  | [] => none

/-- Reads a decimal, with an exponent only where it cannot be read without one. -/
def ofText? (s : String) : Option Decimal :=
  match ofPlainChars? s.toList with
  | some d => some d
  | none => ofScientificChars? s.toList

/-! ## The strict form -/

/-- Whether a text is digits, or digits with a point and digits after it, behind an optional
minus. -/
def isStrict (s : String) : Bool :=
  let chars := match s.toList with
    | '-' :: rest => rest
    | chars => chars
  let whole := chars.takeWhile Char.isDigit
  match chars.dropWhile Char.isDigit with
  | [] => !whole.isEmpty
  | '.' :: fraction => !whole.isEmpty && !fraction.isEmpty && fraction.all Char.isDigit
  | _ => false

/-- Reads a text of the strict form. -/
def ofStrictText? (s : String) : Option Decimal := if isStrict s then ofText? s else none

end Decimal

end LeveragedLp

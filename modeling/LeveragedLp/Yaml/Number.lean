import LeveragedLp.Json.Number

/-!
# Numbers of a YAML text

An integer is written in base ten, or behind a mark in base sixteen, eight or two; a fraction has
a point, an exponent, or both, and is rounded once to a binary one. Digits behind a zero are not a
number.
-/

set_option autoImplicit false

namespace LeveragedLp.Yaml

/-! ## Integers -/

/-- The value of a digit in some base. -/
def digitIn? (base : Nat) (c : Char) : Option Nat :=
  let value :=
    if c.isDigit then c.toNat - 48
    else if 'a' ≤ c ∧ c ≤ 'z' then c.toNat - 87
    else if 'A' ≤ c ∧ c ≤ 'Z' then c.toNat - 55
    else base
  if value < base then some value else none

/-- The number of a row of digits in some base. -/
def naturalIn? (base : Nat) (digits : List Char) : Option Nat :=
  if digits.isEmpty then none
  else digits.foldlM (fun n c => (digitIn? base c).map fun d => n * base + d) 0

/-- Whether a row is of digits that begin with a zero, and more than one. -/
def hasLeadingZero : List Char → Bool
  | '0' :: rest => !rest.isEmpty && rest.all Char.isDigit
  | _ => false

/-- The number of digits behind the mark of their base, or of decimal digits. -/
def unsigned? (chars : List Char) : Option Nat :=
  let marked := match chars with
    | '0' :: 'x' :: rest => naturalIn? 16 rest
    | '0' :: 'o' :: rest => naturalIn? 8 rest
    | '0' :: 'b' :: rest => naturalIn? 2 rest
    | _ => none
  match marked with
  | some n => some n
  | none => if hasLeadingZero chars then none else naturalIn? 10 chars

/-- What is left behind a sign, and whether it is a minus. -/
def splitSign : List Char → Bool × List Char
  | '+' :: rest => (false, rest)
  | '-' :: rest => (true, rest)
  | chars => (false, chars)

/-- Whether an integer is negative, and its size. -/
def integer? (chars : List Char) : Option (Bool × Nat) :=
  let (negative, digits) := splitSign chars
  (unsigned? digits).map (negative, ·)

/-! ## Fractions -/

/-- The value of a row of digits times a power of ten, rounded once. An exponent out of all
proportion makes it zero or too large. -/
def roundedOnce (digits : List Char) (power : Int) : Option Binary64 :=
  let n := Numeral.digitsValue digits
  if n = 0 then some ⟨0, 0⟩
  else if 400 < power then none
  else if power + digits.length < -400 then some ⟨0, 0⟩
  else if 0 ≤ power then Binary64.nearest? (n * tenPow power.toNat) 1
  else Binary64.nearest? n (tenPow (-power).toNat)

/-- An exponent with its mark, or nothing. -/
def exponent? : List Char → Option Int
  | [] => some 0
  | mark :: rest =>
    if mark = 'e' ∨ mark = 'E' then
      let (negative, digits) := splitSign rest
      (naturalIn? 10 digits).map fun n => if negative then -(n : Int) else n
    else none

/-- A number without its sign, as a binary fraction. -/
def unsignedFraction? (chars : List Char) : Option Binary64 :=
  let whole := chars.takeWhile Char.isDigit
  let (places, rest) := match chars.dropWhile Char.isDigit with
    | '.' :: rest => (rest.takeWhile Char.isDigit, rest.dropWhile Char.isDigit)
    | rest => ([], rest)
  if whole.isEmpty && places.isEmpty then none
  else do roundedOnce (whole ++ places) ((← exponent? rest) - places.length)

/-- Whether a fraction is negative, and its size. -/
def fraction? (chars : List Char) : Option (Bool × Binary64) :=
  let (negative, digits) := splitSign chars
  (unsignedFraction? digits).map (negative, ·)

end LeveragedLp.Yaml

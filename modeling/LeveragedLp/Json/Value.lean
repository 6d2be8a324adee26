/-!
# JSON values

The tree of a JSON text. Members of an object keep their order and their duplicates. A number is
kept as it is written, since its reading depends on what is asked for; and a string is `none`
where an escape names half of a surrogate pair, which no text can hold: such a string does no
harm in a value that nobody asks for.
-/

set_option autoImplicit false

namespace LeveragedLp

/-- A number as it is written, part by part. -/
structure Numeral where
  negative : Bool
  /-- The digits before the point. -/
  whole : List Char
  /-- The digits after the point, none if there is no point. -/
  fraction : List Char
  /-- Whether the exponent has a minus, and its digits. -/
  exponent : Option (Bool × List Char)
deriving DecidableEq

/-- A JSON value. -/
inductive Json where
  | null
  | bool (value : Bool)
  | number (numeral : Numeral)
  | string (text : Option String)
  | array (items : List Json)
  | object (members : List (Option String × Json))

namespace Numeral

/-- The number of a row of digits. -/
def digitsValue (digits : List Char) : Nat := Nat.ofDigitChars 10 digits 0

/-- A natural number written plainly. -/
def ofNat (n : Nat) : Numeral := ⟨false, Nat.toDigits 10 n, [], none⟩

/-- Whether there is neither a point nor an exponent. -/
def isPlain (n : Numeral) : Bool := n.fraction.isEmpty && n.exponent.isNone

/-- The natural number, if the number is plain and has no minus. -/
def natural? (n : Numeral) : Option Nat :=
  if n.isPlain && !n.negative then some (digitsValue n.whole) else none

theorem natural?_ofNat (n : Nat) : (ofNat n).natural? = some n := by
  simp [ofNat, natural?, isPlain, digitsValue]

end Numeral

namespace Json

/-- The string of a text. -/
def ofText (s : String) : Json := .string (some s)

/-- The number of a natural number. -/
def ofNat (n : Nat) : Json := .number (.ofNat n)

/-- An object of named members. -/
def record (members : List (String × Json)) : Json :=
  .object (members.map fun m => (some m.1, m.2))

mutual

/-- Whether every string in a value is a text. -/
def isPaired : Json → Bool
  | .string text => text.isSome
  | .array items => arePaired items
  | .object members => membersPaired members
  | _ => true

def arePaired : List Json → Bool
  | [] => true
  | item :: items => isPaired item && arePaired items

def membersPaired : List (Option String × Json) → Bool
  | [] => true
  | (name, value) :: members => name.isSome && isPaired value && membersPaired members

end

end Json

end LeveragedLp

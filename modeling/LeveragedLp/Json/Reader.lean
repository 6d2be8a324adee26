import LeveragedLp.Json.Value

/-!
# Reading JSON

The reader follows the grammar strictly: no zeros in front of a number, no comma at the end of a
list, no control characters in strings, and nothing but blanks after the value. It works on a
list of characters and gives back the value and what is left of the list.
-/

set_option autoImplicit false

namespace LeveragedLp

namespace Json

def isBlank (c : Char) : Bool := c == ' ' || c == '\t' || c == '\n' || c == '\r'

def skipBlanks (cs : List Char) : List Char := cs.dropWhile isBlank

/-- What is left after a fixed word. -/
def skipWord? : List Char → List Char → Option (List Char)
  | [], cs => some cs
  | w :: word, c :: cs => if w = c then skipWord? word cs else none
  | _ :: _, [] => none

/-! ## Strings -/

/-- The value of a hexadecimal digit. -/
def hexValue? (c : Char) : Option Nat :=
  if c.isDigit then some (c.toNat - 48)
  else if 'a' ≤ c ∧ c ≤ 'f' then some (c.toNat - 87)
  else if 'A' ≤ c ∧ c ≤ 'F' then some (c.toNat - 55)
  else none

/-- The number of four hexadecimal digits. -/
def hexQuad? (a b c d : Char) : Option Nat := do
  return (((← hexValue? a) * 16 + (← hexValue? b)) * 16 + (← hexValue? c)) * 16 + (← hexValue? d)

/-- The character after a backslash, where one letter stands for it. -/
def shortEscape? : Char → Option Nat
  | '"' => some 0x22
  | '\\' => some 0x5C
  | '/' => some 0x2F
  | 'b' => some 0x08
  | 'f' => some 0x0C
  | 'n' => some 0x0A
  | 'r' => some 0x0D
  | 't' => some 0x09
  | _ => none

/-- The code units of a string up to its closing quote. A character stands for itself; an escape
may give half of a surrogate pair. -/
def readUnits : List Char → Option (List Nat × List Char)
  | [] => none
  | '"' :: rest => some ([], rest)
  | '\\' :: 'u' :: a :: b :: c :: d :: rest => do
    let unit ← hexQuad? a b c d
    let (units, left) ← readUnits rest
    return (unit :: units, left)
  | '\\' :: c :: rest => do
    let unit ← shortEscape? c
    let (units, left) ← readUnits rest
    return (unit :: units, left)
  | c :: rest =>
    if c.toNat < 0x20 ∨ c = '\\' then none
    else do
      let (units, left) ← readUnits rest
      return (c.toNat :: units, left)

def isHighSurrogate (n : Nat) : Bool := 0xD800 ≤ n && n ≤ 0xDBFF

def isLowSurrogate (n : Nat) : Bool := 0xDC00 ≤ n && n ≤ 0xDFFF

/-- The characters of code units, if every surrogate has its other half. -/
def pairUnits : List Nat → Option (List Char)
  | [] => some []
  | u :: units =>
    if isLowSurrogate u then none
    else if isHighSurrogate u then
      match units with
      | v :: rest =>
        if isLowSurrogate v then
          (pairUnits rest).map
            (Char.ofNat (0x10000 + (u - 0xD800) * 0x400 + (v - 0xDC00)) :: ·)
        else none
      | [] => none
    else (pairUnits units).map (Char.ofNat u :: ·)

/-- The text of code units. -/
def unitsText (units : List Nat) : Option String := (pairUnits units).map String.ofList

/-- A string, after its opening quote. -/
def readString (cs : List Char) : Option (Option String × List Char) := do
  let (units, left) ← readUnits cs
  return (unitsText units, left)

/-! ## Numbers -/

/-- A row of digits, not empty. -/
def readDigitRun (cs : List Char) : Option (List Char × List Char) :=
  let digits := cs.takeWhile Char.isDigit
  if digits.isEmpty then none else some (digits, cs.dropWhile Char.isDigit)

/-- The digits before the point: a lone zero, or a row that begins with another digit. -/
def readWhole : List Char → Option (List Char × List Char)
  | '0' :: rest => some (['0'], rest)
  | cs => readDigitRun cs

/-- The digits after a point, if there is one. -/
def readFraction : List Char → Option (List Char × List Char)
  | '.' :: rest => readDigitRun rest
  | cs => some ([], cs)

/-- An exponent after its mark. -/
def readExponentDigits : List Char → Option (Option (Bool × List Char) × List Char)
  | '-' :: rest => (readDigitRun rest).map fun r => (some (true, r.1), r.2)
  | '+' :: rest => (readDigitRun rest).map fun r => (some (false, r.1), r.2)
  | cs => (readDigitRun cs).map fun r => (some (false, r.1), r.2)

/-- An exponent, if there is one. -/
def readExponent : List Char → Option (Option (Bool × List Char) × List Char)
  | 'e' :: rest => readExponentDigits rest
  | 'E' :: rest => readExponentDigits rest
  | cs => some (none, cs)

/-- A number after its sign. -/
def readUnsigned (negative : Bool) (cs : List Char) : Option (Numeral × List Char) := do
  let (whole, cs) ← readWhole cs
  let (fraction, cs) ← readFraction cs
  let (exponent, cs) ← readExponent cs
  return ({ negative, whole, fraction, exponent }, cs)

def readNumeral : List Char → Option (Numeral × List Char)
  | '-' :: rest => readUnsigned true rest
  | cs => readUnsigned false cs

/-! ## Values -/

/-- Items with commas between them, up to the closing bracket. -/
def readItems {α : Type} (item : List Char → Option (α × List Char)) (close : Char) :
    Nat → List Char → Option (List α × List Char)
  | 0, _ => none
  | fuel + 1, cs => do
    let (first, left) ← item cs
    match skipBlanks left with
    | [] => none
    | c :: rest =>
      if c = close then some ([first], rest)
      else if c = ',' then do
        let (others, left) ← readItems item close fuel rest
        return (first :: others, left)
      else none

/-- A list after its opening bracket; it may be empty. -/
def readList {α : Type} (item : List Char → Option (α × List Char)) (close : Char) (fuel : Nat)
    (cs : List Char) : Option (List α × List Char) :=
  match skipBlanks cs with
  | [] => none
  | c :: rest => if c = close then some ([], rest) else readItems item close fuel (c :: rest)

/-- A member of an object. -/
def readMember (value : List Char → Option (Json × List Char)) (cs : List Char) :
    Option ((Option String × Json) × List Char) := do
  let '"' :: rest := skipBlanks cs | none
  let (name, left) ← readString rest
  let ':' :: rest := skipBlanks left | none
  let (v, left) ← value rest
  return ((name, v), left)

/-- A value and what is left of the text. The fuel bounds the depth of nesting. -/
def readValue : Nat → List Char → Option (Json × List Char)
  | 0, _ => none
  | fuel + 1, cs =>
    match skipBlanks cs with
    | 'n' :: rest => (skipWord? ['u', 'l', 'l'] rest).map fun left => (.null, left)
    | 't' :: rest => (skipWord? ['r', 'u', 'e'] rest).map fun left => (.bool true, left)
    | 'f' :: rest => (skipWord? ['a', 'l', 's', 'e'] rest).map fun left => (.bool false, left)
    | '"' :: rest => (readString rest).map fun r => (.string r.1, r.2)
    | '[' :: rest => (readList (readValue fuel) ']' fuel rest).map fun r => (.array r.1, r.2)
    | '\x7b' :: rest =>
      (readList (readMember (readValue fuel)) '\x7d' fuel rest).map fun r => (.object r.1, r.2)
    | other => (readNumeral other).map fun r => (.number r.1, r.2)

/-- The value of a whole text. -/
def read? (s : String) : Option Json :=
  let cs := s.toList
  match readValue (cs.length + 1) cs with
  | some (value, left) => if (skipBlanks left).isEmpty then some value else none
  | none => none

end Json

end LeveragedLp

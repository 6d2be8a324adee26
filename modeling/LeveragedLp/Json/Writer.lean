import LeveragedLp.Json.Value

/-!
# Writing JSON

The writer leaves no blanks. In a string it escapes the quote, the backslash and the control
characters, those with a letter of their own by it, and nothing else.
-/

set_option autoImplicit false

namespace LeveragedLp

namespace Json

/-- The digit of a value below 16. -/
def hexDigit (n : Nat) : Char := Nat.digitChar n

/-- How a character is written in a string. -/
def escapeChar (c : Char) : List Char :=
  if c = '"' then ['\\', '"']
  else if c = '\\' then ['\\', '\\']
  else if c.toNat = 0x08 then ['\\', 'b']
  else if c.toNat = 0x0C then ['\\', 'f']
  else if c = '\n' then ['\\', 'n']
  else if c = '\r' then ['\\', 'r']
  else if c = '\t' then ['\\', 't']
  else if c.toNat < 0x20 then
    ['\\', 'u', '0', '0', hexDigit (c.toNat / 16), hexDigit (c.toNat % 16)]
  else [c]

/-- A text between quotes. -/
def writeText (s : String) : List Char := '"' :: s.toList.flatMap escapeChar ++ ['"']

/-- A number as it was written. -/
def writeNumeral (n : Numeral) : List Char :=
  (if n.negative then ['-'] else []) ++ n.whole ++
    (if n.fraction.isEmpty then [] else '.' :: n.fraction) ++
    match n.exponent with
    | none => []
    | some (negative, digits) => 'e' :: (if negative then '-' :: digits else digits)

mutual

/-- The characters of a value. A string that is no text is left empty. -/
def write : Json → List Char
  | .null => ['n', 'u', 'l', 'l']
  | .bool true => ['t', 'r', 'u', 'e']
  | .bool false => ['f', 'a', 'l', 's', 'e']
  | .number n => writeNumeral n
  | .string s => writeText (s.getD "")
  | .array items => '[' :: writeItems items
  | .object members => '\x7b' :: writeMembers members

def writeItems : List Json → List Char
  | [] => [']']
  | [item] => write item ++ [']']
  | item :: items => write item ++ ',' :: writeItems items

def writeMembers : List (Option String × Json) → List Char
  | [] => ['\x7d']
  | [(name, value)] => writeText (name.getD "") ++ ':' :: write value ++ ['\x7d']
  | (name, value) :: members =>
    writeText (name.getD "") ++ ':' :: write value ++ ',' :: writeMembers members

end

/-- The text of a value. -/
def render (j : Json) : String := String.ofList j.write

end Json

end LeveragedLp

import LeveragedLp.Text.Blank

/-!
# Quoted text

Text shown inside a message stands between quotes, with a backslash before a quote and a
backslash. Tab, line feed and carriage return have a letter each; every other control character,
and every blank one but the plain space, is shown by its code point in hexadecimal.
-/

set_option autoImplicit false

namespace LeveragedLp.Text

/-- Characters of Unicode's category of controls. -/
def isControl (c : Char) : Bool := c.toNat < 0x20 || (0x7F ≤ c.toNat && c.toNat < 0xA0)

/-- How one character is shown between the quotes. -/
def quotedChar (c : Char) : List Char :=
  if c = '\t' then ['\\', 't']
  else if c = '\r' then ['\\', 'r']
  else if c = '\n' then ['\\', 'n']
  else if c = '"' then ['\\', '"']
  else if c = '\\' then ['\\', '\\']
  else if c ≠ ' ' && (isControl c || isBlankChar c) then
    ['\\', 'u', '\x7b'] ++ Nat.toDigits 16 c.toNat ++ ['\x7d']
  else [c]

/-- The text between quotes. -/
def quoted (s : String) : String :=
  String.ofList ('"' :: s.toList.flatMap quotedChar ++ ['"'])

end LeveragedLp.Text

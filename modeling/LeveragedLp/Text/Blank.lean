/-!
# Blank text

A character is blank when Unicode gives it the property `White_Space`; the table has 25 of them.
Text is blank when all its characters are, so the empty text is.
-/

set_option autoImplicit false

namespace LeveragedLp.Text

/-- The first and last code points of the runs of blank characters. -/
def blankRuns : List (Nat × Nat) :=
  [(0x0009, 0x000D), (0x0020, 0x0020), (0x0085, 0x0085), (0x00A0, 0x00A0), (0x1680, 0x1680),
   (0x2000, 0x200A), (0x2028, 0x2029), (0x202F, 0x202F), (0x205F, 0x205F), (0x3000, 0x3000)]

def isBlankChar (c : Char) : Bool := blankRuns.any fun run => run.1 ≤ c.toNat && c.toNat ≤ run.2

def isBlank (s : String) : Bool := s.toList.all isBlankChar

end LeveragedLp.Text

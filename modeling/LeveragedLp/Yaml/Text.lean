/-!
# Characters and lines of a YAML text

A YAML text is read as a list of characters. A line ends at a line feed, a carriage return, both
in this order, or one of the breaks that Unicode adds. `foldGap` says what the blanks and breaks
between two words of a scalar stand for: a single break is a space, and of several the first
counts for nothing. A `Cursor` tells how far the reading has come.
-/

set_option autoImplicit false

namespace LeveragedLp.Yaml

/-- Characters that a text may hold. -/
def isAllowed (c : Char) : Bool :=
  let n := c.toNat
  n == 0x09 || n == 0x0A || n == 0x0D || (0x20 ≤ n && n ≤ 0x7E) || n == 0x85 ||
    (0xA0 ≤ n && n ≤ 0xFFFD) || 0x10000 ≤ n

/-- The mark that may stand before a text. -/
def byteOrderMark : Char := '\ufeff'

def isBlank (c : Char) : Bool := c == ' ' || c == '\t'

def isBreak (c : Char) : Bool := ['\n', '\r', '\u0085', '\u2028', '\u2029'].contains c

/-- Characters that part words. -/
def isGap (c : Char) : Bool := isBlank c || isBreak c

/-- Characters of names: letters and digits of ASCII, `_` and `-`. -/
def isNameChar (c : Char) : Bool := c.isAlphanum || c == '_' || c == '-'

/-- Whether a word ends here. -/
def atGap (cs : List Char) : Bool := cs.head?.all isGap

/-- Whether a line that begins so begins or ends a document. -/
def isDocumentMark : List Char → Bool
  | '-' :: '-' :: '-' :: rest => atGap rest
  | '.' :: '.' :: '.' :: rest => atGap rest
  | _ => false

/-! ## Line breaks -/

/-- What is left after a line break, if there is one. -/
def dropBreak : List Char → List Char
  | '\r' :: '\n' :: rest => rest
  | c :: rest => if isBreak c then rest else c :: rest
  | [] => []

/-- The characters with all breaks but those of Unicode's separators written as line feeds. -/
def plainBreaks : List Char → List Char
  | '\r' :: '\n' :: rest => '\n' :: plainBreaks rest
  | c :: rest => (if c == '\r' || c == '\u0085' then '\n' else c) :: plainBreaks rest
  | [] => []

/-- The breaks among some characters. -/
def breaksOf (cs : List Char) : List Char := (plainBreaks cs).filter isBreak

/-- How far to the right the last line of some characters reaches. -/
def lastColumn (cs : List Char) : Nat := (cs.reverse.takeWhile fun c => !isBreak c).length

/-! ## Gaps -/

/-- The blanks and breaks up to the next word, and what is left. -/
def splitGap (cs : List Char) : List Char × List Char := (cs.takeWhile isGap, cs.dropWhile isGap)

/-- What a gap between two words stands for. -/
def foldGap (gap : List Char) : List Char :=
  match breaksOf gap with
  | [] => gap
  | ['\n'] => [' ']
  | '\n' :: more => more
  | breaks => breaks

/-- Whether a tab stands among the first `indent` characters of a line of a gap. `column` is
`none` on the first line, whose beginning is not part of the gap. -/
def hasIndentTab (indent : Nat) : Option Nat → List Char → Bool
  | _, [] => false
  | column, c :: cs =>
    if isBreak c then hasIndentTab indent (some 0) cs
    else
      match column with
      | none => hasIndentTab indent none cs
      | some n => (c == '\t' && n < indent) || hasIndentTab indent (some (n + 1)) cs

/-! ## Positions -/

/-- What is left of a text, and the position at which it begins. -/
structure Cursor where
  rest : List Char
  /-- Characters before the position. -/
  index : Nat
  /-- Lines before the position. -/
  line : Nat
  /-- Characters before the position on its line. -/
  column : Nat

/-- The position at which a later part of the text begins. -/
def Cursor.leave (c : Cursor) (rest : List Char) : Cursor :=
  let taken := c.rest.take (c.rest.length - rest.length)
  let breaks := (breaksOf taken).length
  { rest
    index := c.index + taken.length
    line := c.line + breaks
    column := if breaks = 0 then c.column + taken.length else lastColumn taken }

end LeveragedLp.Yaml

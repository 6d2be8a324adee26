import LeveragedLp.Yaml.Text

/-!
# Scalars of a YAML text

A scalar is written plainly, between single or double quotes, or as a block of lines that stand
further to the right. Each way has a reader that works on a list of characters and gives back the
text of the scalar and what is left of the list. Lines of plain and quoted scalars are folded
(`foldGap`); those of a block are kept or folded as its header says.
-/

set_option autoImplicit false

namespace LeveragedLp.Yaml

/-- The ways in which a scalar is written. -/
inductive Style where
  | plain
  | single
  | double
  | literal
  | folded
deriving DecidableEq

/-- A scalar; its tag, if it has one, says what it is to be taken for. -/
structure Scalar where
  tag : Option String
  style : Style
  text : String
deriving DecidableEq

/-! ## Plain scalars -/

/-- Brackets, braces and commas, which end a plain scalar within a flow collection. -/
def isFlowMark (c : Char) : Bool := [',', '[', ']', '\x7b', '\x7d'].contains c

/-- The characters of a plain scalar up to the next gap. Within a flow collection a colon may not
stand right before one of its marks. -/
def plainWord (inFlow : Bool) : List Char → Option (List Char × List Char)
  | [] => some ([], [])
  | c :: rest =>
    if isGap c then some ([], c :: rest)
    else if inFlow && c == ':' && rest.head?.any (fun d => isFlowMark d || d == '?') then none
    else if (c == ':' && atGap rest) || (inFlow && isFlowMark c) then some ([], c :: rest)
    else (plainWord inFlow rest).map fun r => (c :: r.1, r.2)

/-- A plain scalar, which goes on over lines that begin at `indent` or further to the right. The
second result tells whether a line ended behind it. -/
def readPlain (inFlow : Bool) (indent : Nat) : Nat → List Char →
    Option (List Char × Bool × List Char)
  | 0, _ => none
  | fuel + 1, cs => do
    let (word, left) ← plainWord inFlow cs
    let (gap, next) := splitGap left
    let broken := gap.any isBreak
    let outdented := broken && !inFlow && lastColumn gap < indent
    let marked := broken && lastColumn gap == 0 && isDocumentMark next
    if hasIndentTab indent none gap then none
    else if gap.isEmpty || outdented || marked || next.head? == some '#' then
      some (word, broken, next)
    else if (← plainWord inFlow next).1.isEmpty then some (word, broken, next)
    else do
      let (more, ended, rest) ← readPlain inFlow indent fuel next
      some (word ++ foldGap gap ++ more, ended, rest)

/-! ## Quoted scalars -/

/-- The character that a letter after a backslash stands for. -/
def escapeOf? : Char → Option Char
  | '0' => some '\x00'
  | 'a' => some '\x07'
  | 'b' => some '\x08'
  | 't' => some '\t'
  | '\t' => some '\t'
  | 'n' => some '\n'
  | 'v' => some '\x0b'
  | 'f' => some '\x0c'
  | 'r' => some '\r'
  | 'e' => some '\x1b'
  | ' ' => some ' '
  | '"' => some '"'
  | '/' => some '/'
  | '\\' => some '\\'
  | 'N' => some '\u0085'
  | '_' => some '\u00a0'
  | 'L' => some '\u2028'
  | 'P' => some '\u2029'
  | _ => none

/-- The value of a hexadecimal digit. -/
def hexDigit? (c : Char) : Option Nat :=
  if c.isDigit then some (c.toNat - 48)
  else if 'a' ≤ c ∧ c ≤ 'f' then some (c.toNat - 87)
  else if 'A' ≤ c ∧ c ≤ 'F' then some (c.toNat - 55)
  else none

/-- The number of a row of hexadecimal digits. -/
def hexNumber? (digits : List Char) : Option Nat :=
  digits.foldlM (fun n c => (hexDigit? c).map fun d => 16 * n + d) 0

/-- The character of a row of hexadecimal digits. -/
def hexChar? (digits : List Char) : Option Char := do
  let n ← hexNumber? digits
  if n.isValidChar then some (Char.ofNat n) else none

/-- What stands between single quotes up to the next gap; two quotes stand for one. The second
result tells whether the line break behind it was escaped, which it never is. -/
def singleWord : List Char → Option (List Char × Bool × List Char)
  | '\'' :: '\'' :: rest => (singleWord rest).map fun r => ('\'' :: r.1, r.2)
  | c :: rest =>
    if c == '\'' || isGap c then some ([], false, c :: rest)
    else (singleWord rest).map fun r => (c :: r.1, r.2)
  | [] => some ([], false, [])

/-- What stands between double quotes up to the next gap, its escapes resolved. The second result
tells whether the line break behind it was escaped. -/
def doubleWord : List Char → Option (List Char × Bool × List Char)
  | '\\' :: '\r' :: '\n' :: rest => some ([], true, rest)
  | '\\' :: 'x' :: a :: b :: rest => do
    let e ← hexChar? [a, b]
    (doubleWord rest).map fun r => (e :: r.1, r.2)
  | '\\' :: 'u' :: a :: b :: c :: d :: rest => do
    let e ← hexChar? [a, b, c, d]
    (doubleWord rest).map fun r => (e :: r.1, r.2)
  | '\\' :: 'U' :: a :: b :: c :: d :: a' :: b' :: c' :: d' :: rest => do
    let e ← hexChar? [a, b, c, d, a', b', c', d']
    (doubleWord rest).map fun r => (e :: r.1, r.2)
  | '\\' :: c :: rest =>
    if isBreak c then some ([], true, rest)
    else do
      let e ← escapeOf? c
      (doubleWord rest).map fun r => (e :: r.1, r.2)
  | c :: rest =>
    if c == '\\' then none
    else if c == '"' || isGap c then some ([], false, c :: rest)
    else (doubleWord rest).map fun r => (c :: r.1, r.2)
  | [] => some ([], false, [])

/-- A quoted scalar after its opening quote. No document may begin or end within it; `lineStart`
tells whether a line begins here. -/
def readQuoted (quote : Char) (word : List Char → Option (List Char × Bool × List Char)) :
    Nat → Bool → List Char → Option (List Char × List Char)
  | 0, _, _ => none
  | fuel + 1, lineStart, cs =>
    if cs.isEmpty || (lineStart && isDocumentMark cs) then none
    else do
      let (taken, escaped, left) ← word cs
      if !escaped && left.head? == some quote then some (taken, left.drop 1)
      else do
        let (gap, next) := splitGap left
        let lineStart := if gap.isEmpty then escaped else lastColumn gap == 0 && gap.any isBreak
        let (more, rest) ← readQuoted quote word fuel lineStart next
        some (taken ++ (if escaped then breaksOf gap else foldGap gap) ++ more, rest)

/-! ## Block scalars -/

/-- What becomes of the line breaks at the end of a block. -/
inductive Chomp where
  /-- All of them are dropped. -/
  | strip
  /-- The first of them is kept. -/
  | clip
  /-- All of them are kept. -/
  | keep
deriving DecidableEq

/-- The sign that tells what becomes of the last breaks, if there is one. -/
def readChomp : List Char → Chomp × List Char
  | '+' :: rest => (.keep, rest)
  | '-' :: rest => (.strip, rest)
  | cs => (.clip, cs)

/-- The digit that tells the indentation of a block, zero if there is none. -/
def readIncrement : List Char → Option (Nat × List Char)
  | c :: rest =>
    if c == '0' then none
    else if c.isDigit then some (c.toNat - 48, rest)
    else some (0, c :: rest)
  | [] => some (0, [])

/-- The two indicators of a block's header, in either order. -/
def readIndicators (cs : List Char) : Option (Chomp × Nat × List Char) := do
  let (chomp, left) := readChomp cs
  let (increment, left) ← readIncrement left
  if chomp = .clip then
    let (chomp, left) := if increment = 0 then (.clip, left) else readChomp left
    return (chomp, increment, left)
  else return (chomp, increment, left)

/-- What is left after the end of a line on which nothing but a comment may follow. -/
def endLine? (cs : List Char) : Option (List Char) :=
  let left := match cs.dropWhile isBlank with
    | '#' :: rest => rest.dropWhile fun c => !isBreak c
    | left => left
  if left.head?.all isBreak then some (dropBreak left) else none

/-- Where the next line of a block begins. -/
structure NextLine where
  /-- The breaks of the empty lines before it. -/
  breaks : List Char
  /-- The widest indentation of these lines and the line itself. -/
  widest : Nat
  column : Nat
  rest : List Char

/-- Passes over indentation and empty lines. An `indent` of zero is one not known yet. -/
def readIndents (indent : Nat) : Nat → List Char → Option NextLine
  | 0, _ => none
  | fuel + 1, cs =>
    let spaces := (cs.takeWhile (· == ' ')).length
    let column := if indent = 0 then spaces else min spaces indent
    let left := cs.drop column
    if (indent == 0 || column < indent) && left.head? == some '\t' then none
    else if left.head?.any isBreak then do
      let next ← readIndents indent fuel (dropBreak left)
      some { next with
        breaks := breaksOf (left.take (left.length - (dropBreak left).length)) ++ next.breaks
        widest := max column next.widest }
    else some { breaks := [], widest := column, column, rest := left }

/-- The lines of a block that are read already, and the breaks behind them. -/
structure BlockLines where
  text : List Char
  /-- The break at the end of the last line, if there is one. -/
  lineBreak : List Char
  /-- The breaks of the empty lines behind it. -/
  trailing : List Char
  /-- Whether the last line begins with a blank; such a line is not folded. -/
  blank : Bool

/-- Reads the lines of a block that begin exactly at its indentation. -/
def readBlockLines (style : Style) (indent : Nat) : Nat → BlockLines → NextLine →
    Option (BlockLines × List Char)
  | 0, _, _ => none
  | fuel + 1, lines, next =>
    let lines := { lines with trailing := lines.trailing ++ next.breaks }
    if next.column ≠ indent ∨ next.rest.isEmpty then some (lines, next.rest)
    else do
      let blank := next.rest.head?.any isBlank
      let folds := style = .folded && lines.lineBreak == ['\n'] && !lines.blank && !blank
      let joint :=
        if folds then (if lines.trailing.isEmpty then [' '] else []) else lines.lineBreak
      let line := next.rest.takeWhile fun c => !isBreak c
      let left := next.rest.dropWhile fun c => !isBreak c
      let lineBreak := breaksOf (left.take (left.length - (dropBreak left).length))
      let following ← readIndents indent (left.length + 1) (dropBreak left)
      readBlockLines style indent fuel
        { text := lines.text ++ joint ++ lines.trailing ++ line, lineBreak, trailing := [], blank }
        following

/-- A block scalar after its first character, inside a collection whose entries begin left of
`indent`. -/
def readBlock (style : Style) (indent : Nat) (cs : List Char) :
    Option (List Char × List Char) := do
  let (chomp, increment, left) ← readIndicators cs
  let left ← endLine? left
  let base := indent - 1
  let given := if increment = 0 then 0 else base + increment
  let first ← readIndents given (left.length + 1) left
  let width := if increment = 0 then max (max first.widest indent) 1 else given
  let (lines, rest) ← readBlockLines style width (left.length + 2) ⟨[], [], [], false⟩ first
  let text := match chomp with
    | .strip => lines.text
    | .clip => lines.text ++ lines.lineBreak
    | .keep => lines.text ++ lines.lineBreak ++ lines.trailing
  return (text, rest)

end LeveragedLp.Yaml

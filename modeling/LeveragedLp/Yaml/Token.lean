import LeveragedLp.Yaml.Tag

/-!
# Tokens of a YAML text

A text is cut into tokens, among them the marks that its layout implies: where a block collection
begins and ends, and which scalars are keys. A key is known as such only by the colon behind it,
so every token that may be a key is remembered (`KeySpot`) until a colon, another line, or a
thousand characters have followed; the marks are then put before it.
-/

set_option autoImplicit false

namespace LeveragedLp.Yaml

/-- The parts of which a text is made. -/
inductive Token where
  | directive (directive : Directive)
  | documentStart
  | documentEnd
  | blockSequenceStart
  | blockMappingStart
  | blockEnd
  | flowSequenceStart
  | flowSequenceEnd
  | flowMappingStart
  | flowMappingEnd
  | blockEntry
  | flowEntry
  | key
  | value
  | alias (name : String)
  | anchor (name : String)
  | tag (name : TagName)
  | scalar (style : Style) (text : String)
deriving DecidableEq

/-- Where a key may stand that no mark tells as such. -/
structure KeySpot where
  /-- Whether nothing else can stand there. -/
  required : Bool
  /-- The number of tokens before it. -/
  tokens : Nat
  cursor : Cursor

/-- A text that is read in part. -/
structure Scanner where
  cursor : Cursor
  /-- The spot for a key in the innermost flow collection, or outside of all. -/
  spot : Option KeySpot
  /-- The spots outside the innermost flow collection, one for each that is open. -/
  outer : List (Option KeySpot)
  /-- Whether a key that no mark tells as such may begin here. -/
  keyAllowed : Bool
  /-- The columns of the open block collections, the innermost first. -/
  columns : List Nat
  tokens : List Token

namespace Scanner

variable (s : Scanner)

def inFlow : Bool := !s.outer.isEmpty

/-- The first column to the right of the innermost block collection. -/
def indent : Nat := match s.columns with
  | [] => 0
  | column :: _ => column + 1

/-- Goes on to a later part of the text. -/
def leave (rest : List Char) : Scanner := { s with cursor := s.cursor.leave rest }

def push (token : Token) : Scanner := { s with tokens := s.tokens ++ [token] }

def allowKey (allowed : Bool) : Scanner := { s with keyAllowed := allowed }

/-- Passes some characters and adds the token they are. -/
def take (count : Nat) (token : Token) : Scanner := (s.push token).leave (s.cursor.rest.drop count)

/-! ## Spots for keys -/

/-- Whether a spot was left behind: its line has ended, or it is too far away. -/
def isStale (spot : KeySpot) : Bool :=
  spot.cursor.line < s.cursor.line || spot.cursor.index + 1024 < s.cursor.index

/-- Gives up a spot that was left behind; a key that is required has to be found. -/
def dropStale? (spot : Option KeySpot) : Option (Option KeySpot) :=
  match spot with
  | none => some none
  | some spot =>
    if s.isStale spot then (if spot.required then none else some none) else some (some spot)

/-- Gives up all spots that were left behind. -/
def dropStaleSpots? : Option Scanner := do
  return { s with spot := ← s.dropStale? s.spot, outer := ← s.outer.mapM s.dropStale? }

/-- Gives up the innermost spot. -/
def dropSpot? : Option Scanner :=
  if s.spot.any KeySpot.required then none else some { s with spot := none }

/-- Remembers that a key may stand here. -/
def markSpot? : Option Scanner :=
  if s.keyAllowed then do
    let s ← s.dropSpot?
    let required := !s.inFlow && s.columns.head? == some s.cursor.column
    return { s with spot := some ⟨required, s.tokens.length, s.cursor⟩ }
  else some s

/-! ## Block collections -/

/-- Opens a block collection at a column to the right of the innermost one; its mark is put
behind the first `count` tokens. -/
def openBlock (column count : Nat) (mark : Token) : Scanner :=
  if s.inFlow || column < s.indent then s
  else { s with columns := column :: s.columns, tokens := s.tokens.insertIdx count mark }

/-- Closes the block collections that begin at `indent` or to the right of it. -/
def closeBlocks (indent : Nat) : Scanner :=
  if s.inFlow then s
  else
    let closed := s.columns.takeWhile fun column => indent ≤ column
    { s with
      columns := s.columns.drop closed.length
      tokens := s.tokens ++ closed.map fun _ => .blockEnd }

/-! ## Blanks and comments -/

/-- Passes blanks, breaks and comments. A tab counts as a blank where no key may begin. Outside
of flow collections a key may begin on a new line. -/
def skipFiller (inFlow : Bool) : Nat → Bool → List Char → Bool × List Char
  | 0, keyAllowed, cs => (keyAllowed, cs)
  | fuel + 1, keyAllowed, cs =>
    let cs := cs.dropWhile fun c => c == ' ' || (c == '\t' && (inFlow || !keyAllowed))
    let cs := if cs.head? == some '#' then cs.dropWhile fun c => !isBreak c else cs
    if cs.head?.any isBreak then skipFiller inFlow fuel (keyAllowed || !inFlow) (dropBreak cs)
    else (keyAllowed, cs)

/-- Goes on to the beginning of the next token. -/
def toNext : Scanner :=
  let (keyAllowed, rest) :=
    skipFiller s.inFlow (s.cursor.rest.length + 1) s.keyAllowed s.cursor.rest
  (s.allowKey keyAllowed).leave rest

/-! ## Marks -/

/-- A directive, or a line that begins or ends a document. -/
def atDocument? (read : Scanner → Option Scanner) : Option Scanner := do
  let s ← (s.closeBlocks 0).dropSpot?
  read (s.allowKey false)

def readDirective? : Option Scanner :=
  s.atDocument? fun s => do
    let (directive, rest) ← readDirective (s.cursor.rest.drop 1)
    return (s.push (.directive directive)).leave rest

/-- A bracket or brace that opens a flow collection, which may be a key itself. -/
def openFlow? (token : Token) : Option Scanner := do
  let s ← s.markSpot?
  let s := { s with spot := none, outer := s.spot :: s.outer, keyAllowed := true }
  return s.take 1 token

/-- A bracket or brace that closes a flow collection. -/
def closeFlow? (token : Token) : Option Scanner := do
  let s ← s.dropSpot?
  let s := match s.outer with
    | [] => s
    | spot :: outer => { s with spot, outer }
  return (s.allowKey false).take 1 token

def flowEntry? : Option Scanner := do
  let s ← s.dropSpot?
  return (s.allowKey true).take 1 .flowEntry

/-- A dash before an entry of a block sequence. -/
def blockEntry? : Option Scanner :=
  if s.inFlow || s.keyAllowed then do
    let s ← (s.openBlock s.cursor.column s.tokens.length .blockSequenceStart).dropSpot?
    return (s.allowKey true).take 1 .blockEntry
  else none

/-- A question mark before a key. -/
def explicitKey? : Option Scanner :=
  if s.inFlow || s.keyAllowed then do
    let s ← (s.openBlock s.cursor.column s.tokens.length .blockMappingStart).dropSpot?
    return (s.allowKey !s.inFlow).take 1 .key
  else none

/-- A colon. What stands at the spot before it is a key. -/
def value? : Option Scanner :=
  match s.spot with
  | some spot =>
    let s := { s with spot := none, tokens := s.tokens.insertIdx spot.tokens .key }
    let s := s.openBlock spot.cursor.column spot.tokens .blockMappingStart
    some ((s.allowKey false).take 1 .value)
  | none =>
    if s.inFlow then some ((s.allowKey false).take 1 .value)
    else if s.keyAllowed then
      let s := s.openBlock s.cursor.column s.tokens.length .blockMappingStart
      some ((s.allowKey true).take 1 .value)
    else none

/-! ## Nodes -/

/-- A token that may be a key, or begin one. -/
def atSpot? (read : Scanner → Option Scanner) : Option Scanner := do
  let s ← s.markSpot?
  read (s.allowKey false)

/-- The name behind the mark of an anchor or an alias. -/
def readName? (form : String → Token) : Option Scanner :=
  s.atSpot? fun s =>
    let chars := s.cursor.rest.drop 1
    let name := chars.takeWhile isNameChar
    let rest := chars.dropWhile isNameChar
    let ends := atGap rest || ("?:,]%@\x60".toList ++ ['\x7d']).any fun c => rest.head? == some c
    if name.isEmpty || !ends then none
    else some ((s.push (form (String.ofList name))).leave rest)

def readTag? : Option Scanner :=
  s.atSpot? fun s => do
    let (name, rest) ← readTag s.inFlow (s.cursor.rest.drop 1)
    return (s.push (.tag name)).leave rest

def readQuoted? (style : Style) (quote : Char)
    (word : List Char → Option (List Char × Bool × List Char)) : Option Scanner :=
  s.atSpot? fun s => do
    let chars := s.cursor.rest.drop 1
    let (text, rest) ← readQuoted quote word (chars.length + 2) false chars
    return (s.push (.scalar style (String.ofList text))).leave rest

def readBlock? (style : Style) : Option Scanner := do
  let s ← s.dropSpot?
  let (text, rest) ← readBlock style s.indent (s.cursor.rest.drop 1)
  return ((s.allowKey true).push (.scalar style (String.ofList text))).leave rest

def readPlain? : Option Scanner :=
  s.atSpot? fun s => do
    let chars := s.cursor.rest
    let (text, broken, rest) ← readPlain s.inFlow s.indent (chars.length + 1) chars
    return ((s.allowKey broken).push (.scalar .plain (String.ofList text))).leave rest

/-- Characters with which no plain scalar begins, three of them unless something follows. -/
def beginsPlain (inFlow : Bool) : List Char → Bool
  | [] => false
  | c :: rest =>
    if c == '-' then !rest.head?.any isBlank
    else if c == '?' || c == ':' then !inFlow && !atGap rest
    else
      !isGap c && !("#&*!|>'\"%@\x60".toList ++ [',', '[', ']', '\x7b', '\x7d']).contains c

/-- Reads the next token, of which `c` is the first character. -/
def readToken? (c : Char) : Option Scanner :=
  let alone := atGap (s.cursor.rest.drop 1)
  if s.cursor.column = 0 ∧ c = '%' then s.readDirective?
  else if s.cursor.column = 0 ∧ isDocumentMark s.cursor.rest then
    s.atDocument? fun s => some (s.take 3 (if c = '-' then .documentStart else .documentEnd))
  else if c = '[' then s.openFlow? .flowSequenceStart
  else if c = '\x7b' then s.openFlow? .flowMappingStart
  else if c = ']' then s.closeFlow? .flowSequenceEnd
  else if c = '\x7d' then s.closeFlow? .flowMappingEnd
  else if c = ',' then s.flowEntry?
  else if c = '-' ∧ alone then s.blockEntry?
  else if c = '?' ∧ (s.inFlow ∨ alone) then s.explicitKey?
  else if c = ':' ∧ (s.inFlow ∨ alone) then s.value?
  else if c = '*' then s.readName? .alias
  else if c = '&' then s.readName? .anchor
  else if c = '!' then s.readTag?
  else if c = '|' ∧ !s.inFlow then s.readBlock? .literal
  else if c = '>' ∧ !s.inFlow then s.readBlock? .folded
  else if c = '\'' then s.readQuoted? .single '\'' singleWord
  else if c = '"' then s.readQuoted? .double '"' doubleWord
  else if beginsPlain s.inFlow s.cursor.rest then s.readPlain?
  else none

/-- Reads on to the end of the text. Every token has a character of its own, which bounds their
number. -/
def finish? : Nat → Scanner → Option (List Token)
  | 0, _ => none
  | fuel + 1, s => do
    let s ← s.toNext.dropStaleSpots?
    match s.cursor.rest with
    | [] => do
      let s ← (s.closeBlocks 0).dropSpot?
      return s.tokens
    | c :: _ => finish? fuel (← (s.closeBlocks (s.cursor.column + 1)).readToken? c)

/-- The beginning of a text. A byte order mark is passed over; a second one counts as a
character. -/
def start (cs : List Char) : Scanner :=
  let cs := if cs.head? == some byteOrderMark then cs.drop 1 else cs
  let cursor : Cursor := ⟨cs, 0, 0, 0⟩
  let cursor := if cs.head? == some byteOrderMark then cursor.leave (cs.drop 1) else cursor
  { cursor, spot := none, outer := [], keyAllowed := true, columns := [], tokens := [] }

end Scanner

/-- The tokens of a text. -/
def tokens? (s : String) : Option (List Token) :=
  let cs := s.toList
  if cs.all isAllowed then (Scanner.start cs).finish? (cs.length + 2) else none

end LeveragedLp.Yaml

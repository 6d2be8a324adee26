import LeveragedLp.Yaml.Scalar

/-!
# Tags and directives of a YAML text

A tag is written as a handle and a suffix. The directives before a document say what a handle
stands for; two handles stand for something without one. A tag within angle brackets stands for
itself, as does a tag with the empty handle.
-/

set_option autoImplicit false

namespace LeveragedLp.Yaml

/-- A tag as it is written. -/
structure TagName where
  handle : String
  suffix : String
deriving DecidableEq

/-- What is said before a document. -/
inductive Directive where
  | version (major minor : Nat)
  | tag (handle stem : String)
deriving DecidableEq

/-! ## Suffixes -/

/-- Characters of a tag; within angle brackets there are three more. -/
def isTagChar (bracketed : Bool) (c : Char) : Bool :=
  isNameChar c || ";/?:@&=+$.!~*'()".toList.contains c ||
    (bracketed && [',', '[', ']'].contains c)

/-- Octets written as a percent sign and two digits each. -/
def readOctets : List Char → List UInt8 × List Char
  | '%' :: a :: b :: rest =>
    match hexNumber? [a, b] with
    | some n =>
      let (octets, left) := readOctets rest
      (UInt8.ofNat n :: octets, left)
    | none => ([], '%' :: a :: b :: rest)
  | cs => ([], cs)

/-- The text of some octets. -/
def octetsText? (octets : List UInt8) : Option (List Char) :=
  (String.fromUTF8? ⟨octets.toArray⟩).map String.toList

/-- The rest of a tag, which may be empty. -/
def readSuffix (bracketed : Bool) : Nat → List Char → Option (List Char × List Char)
  | 0, _ => none
  | fuel + 1, cs => do
    let plain := cs.takeWhile (isTagChar bracketed)
    match cs.dropWhile (isTagChar bracketed) with
    | '%' :: rest =>
      let (octets, left) := readOctets ('%' :: rest)
      if octets.isEmpty then none
      else do
        let chars ← octetsText? octets
        let (more, left) ← readSuffix bracketed fuel left
        some (plain ++ chars ++ more, left)
    | left => some (plain, left)

/-- The rest of a tag, which may not be empty. -/
def readSuffix? (bracketed : Bool) (cs : List Char) : Option (List Char × List Char) := do
  let (suffix, left) ← readSuffix bracketed (cs.length + 1) cs
  if suffix.isEmpty then none else some (suffix, left)

/-! ## Tags -/

/-- A tag after its first exclamation mark. -/
def readTagName : List Char → Option (TagName × List Char)
  | '<' :: rest => do
    let (suffix, left) ← readSuffix? true rest
    let '>' :: left := left | none
    some (⟨"", String.ofList suffix⟩, left)
  | cs => do
    let name := cs.takeWhile isNameChar
    match cs.dropWhile isNameChar with
    | '!' :: rest =>
      let (suffix, left) ← readSuffix? false rest
      some (⟨String.ofList ('!' :: name ++ ['!']), String.ofList suffix⟩, left)
    | _ =>
      let (suffix, left) ← readSuffix false (cs.length + 1) cs
      if suffix.isEmpty then some (⟨"", "!"⟩, left)
      else some (⟨"!", String.ofList suffix⟩, left)

/-- A tag after its first exclamation mark, with a gap behind it, or a comma in a flow
collection. -/
def readTag (inFlow : Bool) (cs : List Char) : Option (TagName × List Char) := do
  let (name, left) ← readTagName cs
  if (inFlow && left.head? == some ',') || atGap left then some (name, left) else none

/-! ## Directives -/

/-- A number of at most nine digits. -/
def readVersionNumber (cs : List Char) : Option (Nat × List Char) :=
  let digits := cs.takeWhile Char.isDigit
  if digits.isEmpty || 9 < digits.length then none
  else some (Nat.ofDigitChars 10 digits 0, cs.dropWhile Char.isDigit)

/-- The version that a directive names. -/
def readVersion (cs : List Char) : Option (Directive × List Char) := do
  let (major, left) ← readVersionNumber (cs.dropWhile isBlank)
  let '.' :: left := left | none
  let (minor, left) ← readVersionNumber left
  some (.version major minor, left)

/-- A handle of a directive: an exclamation mark, or a name between two. -/
def readHandle (cs : List Char) : Option (List Char × List Char) := do
  let '!' :: rest := cs | none
  let name := rest.takeWhile isNameChar
  match rest.dropWhile isNameChar with
  | '!' :: left => some ('!' :: name ++ ['!'], left)
  | left => if name.isEmpty then some (['!'], left) else none

/-- The handle that a directive names, and what it stands for. -/
def readTagDirective (cs : List Char) : Option (Directive × List Char) := do
  let (handle, left) ← readHandle (cs.dropWhile isBlank)
  if !left.head?.any isBlank then none
  else do
    let (stem, left) ← readSuffix? true (left.dropWhile isBlank)
    if atGap left then some (.tag (String.ofList handle) (String.ofList stem), left) else none

/-- A directive after its percent sign, up to the end of its line. -/
def readDirective (cs : List Char) : Option (Directive × List Char) := do
  let name := cs.takeWhile isNameChar
  let left := cs.dropWhile isNameChar
  if !atGap left then none
  else do
    let (directive, left) ←
      if name = ['Y', 'A', 'M', 'L'] then readVersion left
      else if name = ['T', 'A', 'G'] then readTagDirective left
      else none
    let left ← endLine? left
    some (directive, left)

/-- The handles that need no directive. -/
def standardHandles : List (String × String) := [("!", "!"), ("!!", "tag:yaml.org,2002:")]

/-- What the handles stand for in a document that some directives precede. Each handle is named
once, and at most one version, which has to be 1.1 or 1.2. -/
def handles? : (versioned : Bool) → List Directive → Option (List (String × String))
  | _, [] => some standardHandles
  | versioned, .version major minor :: more =>
    if versioned || major != 1 || !(minor == 1 || minor == 2) then none else handles? true more
  | versioned, .tag handle stem :: more => do
    let named := more.any fun d => match d with
      | .tag other _ => other == handle
      | .version _ _ => false
    if named then none else some ((handle, stem) :: (← handles? versioned more))

/-- The tag that a written one stands for. -/
def TagName.resolve? (name : TagName) (handles : List (String × String)) : Option String :=
  if name.handle.isEmpty then some name.suffix
  else (handles.find? fun h => h.1 == name.handle).map fun h => h.2 ++ name.suffix

end LeveragedLp.Yaml

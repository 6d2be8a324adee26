import LeveragedLp.Yaml.Token

/-!
# The node of a YAML text

A text holds at most one document, and a document one node: a scalar, a list, or a mapping, which
is a list of pairs and may name a key twice. Nodes are read off the tokens of the text. An alias
of a scalar is that scalar; an alias of a collection stays a name, so a node is always finite.
-/

set_option autoImplicit false

namespace LeveragedLp.Yaml

/-- What a text says. -/
inductive Node where
  | scalar (scalar : Scalar)
  | list (items : List Node)
  | mapping (entries : List (Node × Node))
  /-- A collection that was given a name elsewhere. -/
  | named (name : String)

/-- A node that is not written out. -/
def Node.empty : Node := .scalar ⟨none, .plain, ""⟩

/-- The tokens that are left, and what has been named before them. -/
structure NodeReader where
  tokens : List Token
  /-- What the names of nodes stand for, the last one first. -/
  anchors : List (String × Node)
  /-- What the handles of tags stand for. -/
  handles : List (String × String)

/-- A reading of tokens, which may fail. -/
abbrev Reading (α : Type) := StateT NodeReader Option α

/-- Where a node stands. -/
inductive Place where
  /-- Within brackets or braces. -/
  | flow
  /-- Behind a dash, or at the beginning of a document. -/
  | item
  /-- In an entry of a block mapping, where the dashes of a list need no indentation. -/
  | entry
deriving DecidableEq

namespace Reading

/-! ## Single tokens -/

/-- Passes the next token. -/
def skip : Reading Unit := modify fun s => { s with tokens := s.tokens.drop 1 }

/-- Whether the next token is one of these. -/
def isAhead (tokens : List Token) : Reading Bool := do
  return (← get).tokens.head?.any tokens.contains

/-- Passes a token if it is the next one, and tells whether it was. -/
def accept (token : Token) : Reading Bool := do
  if ← isAhead [token] then
    skip
    return true
  else return false

/-- Passes a token, which has to be the next one. -/
def expect (token : Token) : Reading Unit := do
  if ← accept token then return else failure

/-- A node, or the empty one before certain tokens. -/
def orEmpty (ends : List Token) (read : Reading Node) : Reading Node := do
  if ← isAhead ends then return .empty else read

/-- What stands behind the mark of a value; without a mark the value is empty. -/
def readValue (ends : List Token) (read : Reading Node) : Reading Node := do
  if ← accept .value then orEmpty ends read else return .empty

/-! ## Names and tags -/

def readAnchor : Reading (Option String) := do
  let some (.anchor name) := (← get).tokens.head? | return none
  skip
  return some name

def readTag : Reading (Option String) := do
  let some (.tag name) := (← get).tokens.head? | return none
  skip
  return some (← name.resolve? (← get).handles)

/-- The name and the tag of a node, in either order. -/
def readProperties : Reading (Option String × Option String) := do
  let before ← readAnchor
  let tag ← readTag
  let anchor ← if before.isSome then pure before else readAnchor
  return (anchor, tag)

/-- Says what a name stands for from here on, if there is one. -/
def setAnchor (anchor : Option String) (node : String → Node) : Reading Unit :=
  match anchor with
  | none => return
  | some name => modify fun s => { s with anchors := (name, node name) :: s.anchors }

/-- The node that an alias stands for. -/
def readAlias (name : String) : Reading Node := do
  skip
  let anchor ← (← get).anchors.find? fun a => a.1 == name
  return anchor.2

def readScalar (anchor : Option String) (scalar : Scalar) : Reading Node := do
  setAnchor anchor fun _ => .scalar scalar
  return .scalar scalar

def readList (anchor : Option String) (items : Reading (List Node)) : Reading Node := do
  setAnchor anchor .named
  return .list (← items)

def readMapping (anchor : Option String) (entries : Reading (List (Node × Node))) :
    Reading Node := do
  setAnchor anchor .named
  return .mapping (← entries)

/-! ## Nodes -/

mutual

/-- A node with its name and tag. A tag of nothing but its mark says nothing of a scalar that is
written out. -/
def readNode : Nat → Place → Reading Node
  | 0, _ => failure
  | fuel + 1, place => do
    if let some (.alias name) := (← get).tokens.head? then readAlias name
    else
      let (anchor, tag) ← readProperties
      match (← get).tokens.head? with
      | some (.scalar style text) =>
        skip *> readScalar anchor ⟨tag.filter (· != "!"), style, text⟩
      | some .flowSequenceStart => readList anchor (skip *> readFlowItems fuel)
      | some .flowMappingStart => readMapping anchor (skip *> readFlowEntries fuel)
      | token =>
        if token = some .blockEntry ∧ place = .entry then readList anchor (readOutdented fuel)
        else if token = some .blockSequenceStart ∧ place ≠ .flow then
          readList anchor (skip *> readItems fuel)
        else if token = some .blockMappingStart ∧ place ≠ .flow then
          readMapping anchor (skip *> readEntries fuel)
        else if anchor.isSome || tag.isSome then readScalar anchor ⟨tag, .plain, ""⟩
        else failure

/-- The items of a block sequence, up to its end. -/
def readItems : Nat → Reading (List Node)
  | 0 => failure
  | fuel + 1 => do
    if ← accept .blockEnd then return []
    else
      expect .blockEntry
      let item ← orEmpty [.blockEntry, .blockEnd] (readNode fuel .item)
      return item :: (← readItems fuel)

/-- The items of a block sequence that has no indentation of its own, nor a mark of its end. -/
def readOutdented : Nat → Reading (List Node)
  | 0 => failure
  | fuel + 1 => do
    if ← accept .blockEntry then
      let item ← orEmpty [.blockEntry, .key, .value, .blockEnd] (readNode fuel .item)
      return item :: (← readOutdented fuel)
    else return []

/-- The entries of a block mapping, up to its end. -/
def readEntries : Nat → Reading (List (Node × Node))
  | 0 => failure
  | fuel + 1 => do
    if ← accept .blockEnd then return []
    else
      expect .key
      let ends : List Token := [.key, .value, .blockEnd]
      let key ← orEmpty ends (readNode fuel .entry)
      let value ← readValue ends (readNode fuel .entry)
      return (key, value) :: (← readEntries fuel)

/-- The items within brackets, up to the closing one. A comma may stand behind the last. -/
def readFlowItems : Nat → Reading (List Node)
  | 0 => failure
  | fuel + 1 => do
    if ← accept .flowSequenceEnd then return []
    else
      let item ← if ← accept .key then readFlowPair fuel else readNode fuel .flow
      if ← accept .flowEntry then return item :: (← readFlowItems fuel)
      else
        expect .flowSequenceEnd
        return [item]

/-- An item within brackets that is a mapping of one entry. The token behind an empty key counts
as that key. -/
def readFlowPair : Nat → Reading Node
  | 0 => failure
  | fuel + 1 => do
    let key ←
      if ← isAhead [.value, .flowEntry, .flowSequenceEnd] then
        skip
        pure .empty
      else readNode fuel .flow
    let value ← readValue [.flowEntry, .flowSequenceEnd] (readNode fuel .flow)
    return .mapping [(key, value)]

/-- The entries within braces, up to the closing one. A comma may stand behind the last. What is
not known as a key has an empty value. -/
def readFlowEntries : Nat → Reading (List (Node × Node))
  | 0 => failure
  | fuel + 1 => do
    if ← accept .flowMappingEnd then return []
    else
      let entry ←
        if ← accept .key then
          let key ← orEmpty [.value, .flowEntry, .flowMappingEnd] (readNode fuel .flow)
          let value ← readValue [.flowEntry, .flowMappingEnd] (readNode fuel .flow)
          pure (key, value)
        else
          let key ← readNode fuel .flow
          pure (key, .empty)
      if ← accept .flowEntry then return entry :: (← readFlowEntries fuel)
      else
        expect .flowMappingEnd
        return [entry]

end

/-! ## Documents -/

/-- The directives before a document. -/
def readDirectives : List Token → List Directive × List Token
  | .directive directive :: tokens =>
    let (directives, left) := readDirectives tokens
    (directive :: directives, left)
  | tokens => ([], tokens)

/-- Whether a document has no content before a token. -/
def endsDocument : Token → Bool
  | .directive _ => true
  | token => token = .documentStart || token = .documentEnd

/-- The node of a document after its first dashes. Every call of a reader passes a token or calls
one that does, which bounds their depth. -/
def readContent : Reading Node := do
  let tokens := (← get).tokens
  if tokens.head?.all endsDocument then return .empty
  else readNode (4 * tokens.length + 4) .item

/-- A document with what stands before it. Without directives or dashes it begins at once, and
has some content. -/
def readDocument : Reading Node := do
  let tokens := (← get).tokens
  if tokens.head?.any endsDocument then
    let (directives, left) := readDirectives tokens
    let handles ← handles? false directives
    set ({ tokens := left, anchors := [], handles } : NodeReader)
    expect .documentStart
    readContent
  else readNode (4 * tokens.length + 4) .item

end Reading

/-- The node of a text, or `some none` for a text without a document. -/
def read? (s : String) : Option (Option Node) := do
  match ← tokens? s with
  | [] => return none
  | tokens =>
    let (node, left) ←
      Reading.readDocument.run { tokens, anchors := [], handles := standardHandles }
    if left.tokens.all (· = .documentEnd) then return some node else failure

end LeveragedLp.Yaml

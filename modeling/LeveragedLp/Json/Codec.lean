import LeveragedLp.Json.Number
import LeveragedLp.Json.Reader
import LeveragedLp.Json.Writer

/-!
# Values as JSON

`JsonCodec` pairs the writing of a type with its reading. Records are written as objects with
their fields in a fixed order. They are read more liberally: the fields of an object come in any
order and unknown ones do no harm, but none comes twice; and an array of the fields in order
will do as well.
-/

set_option autoImplicit false

namespace LeveragedLp

/-- A type whose values are written as JSON and read from it. -/
class JsonCodec (α : Type) where
  toJson : α → Json
  ofJson? : Json → Option α

export JsonCodec (toJson ofJson?)

namespace Json

def text? : Json → Option String
  | .string text => text
  | _ => none

def bool? : Json → Option Bool
  | .bool b => some b
  | _ => none

/-- A natural number, written plainly. -/
def natural? : Json → Option Nat
  | .number n => n.natural?
  | _ => none

/-- A decimal, given as a text or as a number. -/
def decimal? : Json → Option Decimal
  | .string text => text.bind Decimal.ofText?
  | .number n => n.decimal?
  | _ => none

/-- The name of one of several choices: a text, or the only member of an object, which is
null. -/
def choice? : Json → Option String
  | .string text => text
  | .object [(some name, .null)] => some name
  | _ => none

/-! ## Records -/

/-- The fields that were given, by name. -/
abbrev Fields := List (String × Json)

/-- The fields of these names among the members of an object. A field that is given twice, and a
member whose name is no text, spoil the record. -/
def pickFields (names : List String) : List (Option String × Json) → Option Fields
  | [] => some []
  | (none, _) :: _ => none
  | (some name, value) :: members => do
    let fields ← pickFields names members
    if names.contains name then
      if fields.any fun f => f.1 == name then none else some ((name, value) :: fields)
    else some fields

/-- The fields of a record with the given names. In an array all of them are given, or, where
`partially` allows it, the first of them. -/
def fields? (names : List String) (partially : Bool) : Json → Option Fields
  | .object members => pickFields names members
  | .array items =>
    if items.length = names.length ∨ (partially ∧ items.length ≤ names.length) then
      some (names.zip items)
    else none
  | _ => none

namespace Fields

variable {α : Type} [JsonCodec α]

/-- The value of a field, where it is given. -/
def member? (fields : Fields) (name : String) : Option Json :=
  (fields.find? fun f => f.1 == name).map Prod.snd

/-- A field that has to be given. -/
def required (fields : Fields) (name : String) : Option α := (fields.member? name).bind ofJson?

/-- A field that may be missing; then it has the given value. -/
def orValue (fields : Fields) (name : String) (value : α) : Option α :=
  match fields.member? name with
  | none => some value
  | some json => ofJson? json

end Fields

/-! ## Plain types -/

instance : JsonCodec Bool := ⟨.bool, bool?⟩

instance : JsonCodec String := ⟨ofText, text?⟩

instance : JsonCodec UInt64 where
  toJson n := ofNat n.toNat
  ofJson? j := do
    let n ← j.natural?
    if n < twoPow 64 then some (UInt64.ofNat n) else none

instance {α : Type} [JsonCodec α] : JsonCodec (Option α) where
  toJson
    | none => .null
    | some a => toJson a
  ofJson?
    | .null => some none
    | j => (ofJson? j).map some

instance {α : Type} [JsonCodec α] : JsonCodec (List α) where
  toJson items := .array (items.map toJson)
  ofJson?
    | .array items => items.mapM ofJson?
    | _ => none

/-! ## Texts -/

/-- The text of a value. -/
def writeAs {α : Type} [JsonCodec α] (a : α) : String := (toJson a).render

/-- The value of a text. -/
def readAs? (α : Type) [JsonCodec α] (s : String) : Option α := (read? s).bind ofJson?

end Json

end LeveragedLp

import LeveragedLp.Decimal.Reader
import LeveragedLp.Yaml.Node
import LeveragedLp.Yaml.Number

/-!
# Values of a YAML text

What a scalar is taken for depends on what is asked for: a name is its characters, a machine word
has to be a plain integer, and a decimal may be any number or a text that denotes one. Tags say
that a scalar is a number although it is quoted, or a text although it is plain. No value is a
collection.
-/

set_option autoImplicit false

namespace LeveragedLp.Yaml

/-- What the names of types begin with. -/
def typeTag (name : String) : String := "tag:yaml.org,2002:" ++ name

/-- Plain scalars that stand for nothing. -/
def isNothing (text : String) : Bool := ["", "~", "null", "Null", "NULL"].contains text

/-- Plain scalars that stand for a truth value. -/
def isTruth (text : String) : Bool :=
  ["true", "True", "TRUE", "false", "False", "FALSE"].contains text

/-- The name that a tag of one's own gives, which is what follows its mark. -/
def ownTag? (tag : Option String) : Option String :=
  match tag.map String.toList with
  | some ('!' :: name) => some (String.ofList name)
  | _ => none

namespace Scalar

/-- The decimal of an integer, which has to be a machine word, or the negative of one half of
them. -/
def ofInteger? (negative : Bool) (n : Nat) : Option Decimal :=
  if n < (if negative then twoPow 63 + 1 else twoPow 64) then
    Decimal.ofParts? (negative && n != 0) n 0
  else none

/-- The decimal with the fewest digits that are rounded to a binary fraction. -/
def ofFraction? (negative : Bool) (x : Binary64) : Option Decimal :=
  Decimal.ofText? (Decimal.partsText negative x.positional.1 x.positional.2)

/-- A decimal that a plain scalar denotes. -/
def plainDecimal? (text : String) : Option Decimal :=
  if isNothing text || isTruth text then none
  else
    let chars := text.toList
    match integer? chars with
    | some (negative, n) => ofInteger? negative n
    | none =>
      if hasLeadingZero (splitSign chars).2 then Decimal.ofText? text
      else
        match fraction? chars with
        | some (negative, x) => ofFraction? negative x
        | none => Decimal.ofText? text

variable (s : Scalar)

/-- A machine word: an integer without a minus, which is plain, or tagged as an integer in a
literal block. -/
def word? : Option UInt64 :=
  if s.style = .plain ∨ (s.style = .literal ∧ s.tag = some (typeTag "int")) then
    match integer? s.text.toList with
    | some (false, n) => if n < twoPow 64 then some (UInt64.ofNat n) else none
    | _ => none
  else none

/-- A decimal: any number, or a text that denotes one. -/
def decimal? : Option Decimal :=
  match s.tag with
  | none => if s.style = .plain then plainDecimal? s.text else Decimal.ofText? s.text
  | some tag =>
    if tag = typeTag "int" then
      (integer? s.text.toList).bind fun number => ofInteger? number.1 number.2
    else if tag = typeTag "float" then
      (fraction? s.text.toList).bind fun number => ofFraction? number.1 number.2
    else if tag = typeTag "bool" ∨ tag = typeTag "null" ∨ (ownTag? tag).isSome then none
    else Decimal.ofText? s.text

/-- The name of one of several choices: the text, or a tag of one's own at a scalar that stands
for nothing. -/
def choice? : Option String :=
  match ownTag? s.tag with
  | none => some s.text
  | some name => if s.style = .plain ∧ isNothing s.text then some name else none

end Scalar

namespace Node

/-- The scalar that a node is, if it is not a collection. -/
def scalar? : Node → Option Scalar
  | .scalar s => some s
  | _ => none

/-- The entries of a mapping, with the texts of their names. A text without content has none. -/
def entries? : Option Node → Option (List (String × Node))
  | none => some []
  | some (.mapping entries) => entries.mapM fun entry => do
    let name ← entry.1.scalar?
    return (name.text, entry.2)
  | some (.scalar s) =>
    if s.style = .plain ∧ s.text.isEmpty then some [] else none
  | some _ => none

end Node

end LeveragedLp.Yaml

import LeveragedLp.Decimal.Binary64
import LeveragedLp.Decimal.Reader
import LeveragedLp.Json.Value

/-!
# Numbers of a JSON text as decimals

A number without point and exponent that is a machine integer is taken as it stands. Any other
is read as a binary64: its digits are gathered into a word of 64 bits, those that do not fit
being dropped, and the word is multiplied or divided by a power of ten, each step rounded. The
decimal is the one that the shortest digits of the result denote.
-/

set_option autoImplicit false

namespace LeveragedLp

namespace Numeral

/-- Gathers digits before the point; the second result counts those that were dropped. -/
def gatherWhole : Nat → List Char → Nat × Nat
  | word, [] => (word, 0)
  | word, c :: cs =>
    let longer := 10 * word + Decimal.digitValue c
    if longer < twoPow 64 then gatherWhole longer cs else (word, cs.length + 1)

/-- Gathers digits after the point; the second result counts those that were kept. -/
def gatherFraction : Nat → List Char → Nat × Nat
  | word, [] => (word, 0)
  | word, c :: cs =>
    let longer := 10 * word + Decimal.digitValue c
    if longer < twoPow 64 then
      let (gathered, kept) := gatherFraction longer cs
      (gathered, kept + 1)
    else (word, 0)

/-- The word of the digits and the power of ten it has before the exponent is looked at. -/
def gather (n : Numeral) : Nat × Int :=
  let (word, dropped) := gatherWhole 0 n.whole
  let (word, kept) := gatherFraction word n.fraction
  (word, (dropped : Int) - (kept : Int))

/-- The largest power of ten that a single step multiplies or divides by. -/
def maxStep : Nat := 308

/-- Divides by a power of ten, in steps of which all but the last are the largest. -/
def divideSteps : Nat → Binary64 → Nat → Option Binary64
  | 0, _, _ => some ⟨0, 0⟩
  | steps + 1, x, power =>
    if power ≤ maxStep then do x.div? (← Binary64.nearest? (tenPow power) 1)
    else if x.significand = 0 then some x
    else do
      let smaller ← x.div? (← Binary64.nearest? (tenPow maxStep) 1)
      divideSteps steps smaller (power - maxStep)

/-- A word times a power of ten, rounded at each step. -/
def scaled (word : Nat) (power : Int) : Option Binary64 := do
  let x ← Binary64.nearest? word 1
  if 0 ≤ power then
    if power ≤ maxStep then x.mul? (← Binary64.nearest? (tenPow power.toNat) 1)
    else if word = 0 then some x
    else none
  else divideSteps 4 x (-power).toNat

/-- The number as a binary64 without its sign, if it is not too large. -/
def binary64? (n : Numeral) : Option Binary64 :=
  let (word, power) := n.gather
  match n.exponent with
  | none => scaled word power
  | some (negative, digits) =>
    let exponent := digitsValue digits
    if exponent < twoPow 31 then
      scaled word (if negative then power - exponent else power + exponent)
    else if negative ∨ word = 0 then some ⟨0, 0⟩
    else none

/-- Whether the number is plain and a machine integer, of 64 bits with or without a sign. A zero
with a minus is none. -/
def isMachineInteger (n : Numeral) : Bool :=
  n.isPlain &&
    if n.negative then 0 < digitsValue n.whole && digitsValue n.whole ≤ twoPow 63
    else digitsValue n.whole < twoPow 64

/-- The number as a decimal. -/
def decimal? (n : Numeral) : Option Decimal :=
  if n.isMachineInteger then Decimal.ofParts? n.negative (digitsValue n.whole) 0
  else do
    let x ← n.binary64?
    Decimal.ofText? (Decimal.partsText n.negative x.positional.1 x.positional.2)

end Numeral

end LeveragedLp

import LeveragedLp.Decimal.Rounding

/-!
# Writing decimals

`Decimal.text` keeps the scale: `5.00` is written with both zeros. `Decimal.ledgerText` is the
form used in events: the decimal is first brought to 18 places, a dropped half rounding away
from zero. Places are added only while the mantissa keeps within 96 bits, so a large number is
written with fewer of them.
-/

set_option autoImplicit false

namespace LeveragedLp

namespace Decimal

/-- The places of `fraction`, with the zeros in front that its scale asks for. -/
def placesText (fraction places : Nat) : String :=
  String.ofList (List.leftpad places '0' (Nat.toDigits 10 fraction))

/-- Sign, whole part and, for a positive scale, a point and exactly `places` digits. -/
def partsText (negative : Bool) (mantissa places : Nat) : String :=
  let sign := if negative then "-" else ""
  let whole := toString (mantissa / tenPow places)
  if places = 0 then sign ++ whole
  else sign ++ whole ++ "." ++ placesText (mantissa % tenPow places) places

/-- The text of a decimal, all its places shown. -/
def text (d : Decimal) : String := partsText d.negative d.mantissa d.scale

/-- The text of a decimal without trailing zeros. -/
def shortText (d : Decimal) : String := d.normalize.text

/-! ## The ledger's form -/

/-- The number of places the ledger writes. -/
def ledgerPlaces : Nat := 18

/-- Mantissa and scale after up to `extra` more places, as many as keep the mantissa within 96
bits. -/
def widen : Nat → Nat → Nat → Nat × Nat
  | 0, mantissa, scale => (mantissa, scale)
  | extra + 1, mantissa, scale =>
    if 10 * mantissa < twoPow 96 then widen extra (10 * mantissa) (scale + 1) else (mantissa, scale)

/-- Mantissa and scale at the ledger's places. -/
def ledgerParts (d : Decimal) : Nat × Nat :=
  if d.isZero then (0, ledgerPlaces)
  else if ledgerPlaces < d.scale then
    (roundHalfUp d.mantissa (tenPow (d.scale - ledgerPlaces)), ledgerPlaces)
  else widen (ledgerPlaces - d.scale) d.mantissa d.scale

/-- The text of a decimal in events. A negative number that rounds to zero keeps its sign. -/
def ledgerText (d : Decimal) : String := partsText d.negative d.ledgerParts.1 d.ledgerParts.2

end Decimal

end LeveragedLp

import LeveragedLp.Checked
import LeveragedLp.Json.Codec

/-!
# Amounts, names and choices as JSON

An amount is a plain integer of up to 128 bits. A decimal is written as a text that keeps its
scale. The texts of denominations and addresses are checked when they are read.
-/

set_option autoImplicit false

namespace LeveragedLp

open Json

instance : JsonCodec Amount where
  toJson a := ofNat a.units
  ofJson? j := j.natural?.bind Amount.ofNat?

instance : JsonCodec Decimal where
  toJson d := ofText d.text
  ofJson? := decimal?

instance : JsonCodec Denom where
  toJson d := ofText d.text
  ofJson? j := j.text?.bind Denom.ofText?

instance : JsonCodec Address where
  toJson a := ofText a.text
  ofJson? j := j.text?.bind Address.ofText?

instance : JsonCodec Coin where
  toJson c := record [("denom", toJson c.denom), ("amount", toJson c.amount)]
  ofJson? j := do
    let fields ← fields? ["denom", "amount"] false j
    return { denom := ← fields.required "denom", amount := ← fields.required "amount" }

/-! ## Choices -/

/-- The name of a direction in records. -/
def Direction.name : Direction → String
  | .long => "Long"
  | .short => "Short"

def Direction.ofName? : String → Option Direction
  | "Long" => some .long
  | "Short" => some .short
  | _ => none

/-- The name of a policy in records. -/
def InterestPolicy.name : InterestPolicy → String
  | .stacked => "stacked"
  | .separate => "separate"

def InterestPolicy.ofName? : String → Option InterestPolicy
  | "stacked" => some .stacked
  | "separate" => some .separate
  | _ => none

/-- Reads the text of a reason. -/
def CloseReason.ofText? : String → Option CloseReason
  | "user" => some .user
  | "take_profit" => some .takeProfit
  | "liquidation" => some .liquidation
  | "pool_wind_down" => some .poolWindDown
  | _ => none

instance : JsonCodec Direction where
  toJson d := ofText d.name
  ofJson? j := j.choice?.bind Direction.ofName?

instance : JsonCodec InterestPolicy where
  toJson p := ofText p.name
  ofJson? j := j.choice?.bind InterestPolicy.ofName?

instance : JsonCodec CloseReason where
  toJson r := ofText r.text
  ofJson? j := j.choice?.bind CloseReason.ofText?

instance : JsonCodec Block where
  toJson b := record [("height", toJson b.height), ("time", toJson b.time)]
  ofJson? j := do
    let fields ← fields? ["height", "time"] false j
    return { height := ← fields.required "height", time := ← fields.required "time" }

end LeveragedLp

import LeveragedLp.Engine.Basic
import LeveragedLp.Record.Book

/-!
# Requests, answers and events as JSON

What goes into the engine and comes out of it. An event is an object whose first member, `type`,
tells its kind; the attributes of an opening stand next to it, those of the other events under
`position`. Events are only written.
-/

set_option autoImplicit false

namespace LeveragedLp

open Json

namespace OpenRequest

/-- The names of a request's fields, in the order in which they are written. -/
def names : List String :=
  ["owner", "collateral", "borrow_asset", "amm_pool_id", "direction", "leverage",
   "take_profit_price"]

instance : JsonCodec OpenRequest where
  toJson r := record
    [("owner", toJson r.owner),
     ("collateral", toJson r.collateral),
     ("borrow_asset", toJson r.borrowAsset),
     ("amm_pool_id", toJson r.pool),
     ("direction", toJson r.direction),
     ("leverage", toJson r.leverage),
     ("take_profit_price", toJson r.takeProfit)]
  ofJson? j := do
    let fields ← fields? names false j
    return {
      owner := ← fields.required "owner"
      collateral := ← fields.required "collateral"
      borrowAsset := ← fields.required "borrow_asset"
      pool := ← fields.required "amm_pool_id"
      direction := ← fields.required "direction"
      leverage := ← fields.required "leverage"
      takeProfit := ← fields.orValue "take_profit_price" none }

end OpenRequest

namespace Response

/-- The names of an answer's fields, in the order in which they are written. -/
def names : List String :=
  ["position_id", "final_collateral", "liabilities", "health", "interest_paid", "repay_amount"]

instance : JsonCodec Response where
  toJson r := record
    [("position_id", toJson r.positionId),
     ("final_collateral", toJson r.finalCollateral),
     ("liabilities", toJson r.liabilities),
     ("health", toJson r.health),
     ("interest_paid", toJson r.interestPaid),
     ("repay_amount", toJson r.repayAmount)]
  ofJson? j := do
    let fields ← fields? names false j
    return {
      positionId := ← fields.required "position_id"
      finalCollateral := ← fields.required "final_collateral"
      liabilities := ← fields.required "liabilities"
      health := ← fields.required "health"
      interestPaid := ← fields.required "interest_paid"
      repayAmount := ← fields.required "repay_amount" }

end Response

instance : JsonCodec SwapRoute where
  toJson r := record [("pool_id", toJson r.pool), ("token_out_denom", toJson r.target)]
  ofJson? j := do
    let fields ← fields? ["pool_id", "token_out_denom"] false j
    return { pool := ← fields.required "pool_id", target := ← fields.required "token_out_denom" }

instance : JsonCodec PoolListing where
  toJson p := record
    [("pool_id", toJson p.id),
     ("assets", toJson p.assets),
     ("total_shares", toJson p.totalShares)]
  ofJson? j := do
    let fields ← fields? ["pool_id", "assets", "total_shares"] false j
    return {
      id := ← fields.required "pool_id"
      assets := ← fields.required "assets"
      totalShares := ← fields.required "total_shares" }

namespace PositionSummary

/-- The names of a summary's fields, in the order in which they are written. -/
def names : List String :=
  ["id", "address", "amm_pool_id", "collateral", "repay_amount", "leverage", "liabilities",
   "interest_paid", "health"]

/-- The fields of a summary. -/
def fields (p : PositionSummary) : Fields :=
  [("id", toJson p.id),
   ("address", toJson p.owner),
   ("amm_pool_id", toJson p.pool),
   ("collateral", toJson p.collateral),
   ("repay_amount", toJson p.repayAmount),
   ("leverage", toJson p.leverage),
   ("liabilities", toJson p.liabilities),
   ("interest_paid", toJson p.interestPaid),
   ("health", toJson p.health)]

instance : JsonCodec PositionSummary where
  toJson p := record p.fields
  ofJson? j := do
    let fields ← fields? names false j
    return {
      id := ← fields.required "id"
      owner := ← fields.required "address"
      pool := ← fields.required "amm_pool_id"
      collateral := ← fields.required "collateral"
      repayAmount := ← fields.required "repay_amount"
      leverage := ← fields.required "leverage"
      liabilities := ← fields.required "liabilities"
      interestPaid := ← fields.required "interest_paid"
      health := ← fields.required "health" }

end PositionSummary

namespace Event

/-- The word for the kind of an event. -/
def kind : Event → String
  | opened _ => "opened"
  | collateralAdded _ _ => "collateral_added"
  | closed _ _ => "closed"
  | forceClosed _ _ => "force_closed"
  | shortfallWrittenOff _ _ _ _ => "shortfall_written_off"
  | interestSkipped _ _ _ => "interest_skipped"

/-- The members of an event after its kind. -/
def fields : Event → Fields
  | opened position => position.fields
  | collateralAdded position amount =>
    [("position", toJson position), ("amount", toJson amount)]
  | closed position reason => [("position", toJson position), ("reason", toJson reason)]
  | forceClosed position reason => [("position", toJson position), ("reason", toJson reason)]
  | shortfallWrittenOff id owner pool shortfall =>
    [("id", toJson id), ("address", toJson owner), ("amm_pool_id", toJson pool),
     ("shortfall", toJson shortfall)]
  | interestSkipped id owner fault =>
    [("id", toJson id), ("address", toJson owner), ("error", toJson fault)]

/-- The text of an event. -/
def text (e : Event) : String := (record (("type", ofText e.kind) :: e.fields)).render

end Event

end LeveragedLp

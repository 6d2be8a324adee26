import LeveragedLp.Book
import LeveragedLp.Record.Values

/-!
# Parameters, pools and positions as JSON

Every parameter may be missing and then has its standard value. Of a position only the take
profit price may be missing.
-/

set_option autoImplicit false

namespace LeveragedLp

open Json

namespace Params

/-- The names of the parameters, in the order in which they are written. -/
def names : List String :=
  ["base_currency", "liquidation_threshold", "safe_threshold", "pool_open_threshold",
   "epoch_length", "max_open_positions", "interest_policy"]

instance : JsonCodec Params where
  toJson p := record
    [("base_currency", toJson p.baseCurrency),
     ("liquidation_threshold", toJson p.liquidationThreshold),
     ("safe_threshold", toJson p.safeThreshold),
     ("pool_open_threshold", toJson p.poolOpenThreshold),
     ("epoch_length", toJson p.epochLength),
     ("max_open_positions", toJson p.maxOpenPositions),
     ("interest_policy", toJson p.interestPolicy)]
  ofJson? j := do
    let fields ← fields? names true j
    return {
      baseCurrency := ← fields.orValue "base_currency" standard.baseCurrency
      liquidationThreshold :=
        ← fields.orValue "liquidation_threshold" standard.liquidationThreshold
      safeThreshold := ← fields.orValue "safe_threshold" standard.safeThreshold
      poolOpenThreshold := ← fields.orValue "pool_open_threshold" standard.poolOpenThreshold
      epochLength := ← fields.orValue "epoch_length" standard.epochLength
      maxOpenPositions := ← fields.orValue "max_open_positions" standard.maxOpenPositions
      interestPolicy := ← fields.orValue "interest_policy" standard.interestPolicy }

/-- The parameters of a JSON text, if they are valid. -/
def ofJsonText (s : String) : Except Fault Params := do
  let params ← orFault .config (readAs? Params s)
  params.validate
  return params

end Params

namespace Pool

/-- The names of a pool's fields, in the order in which they are written. -/
def names : List String :=
  ["amm_pool_id", "health", "enabled", "closed", "leveraged_lp_amount", "leverage_max"]

instance : JsonCodec Pool where
  toJson p := record
    [("amm_pool_id", toJson p.id),
     ("health", toJson p.health),
     ("enabled", toJson p.enabled),
     ("closed", toJson p.closed),
     ("leveraged_lp_amount", toJson p.leveraged),
     ("leverage_max", toJson p.leverageMax)]
  ofJson? j := do
    let fields ← fields? names false j
    return {
      id := ← fields.required "amm_pool_id"
      health := ← fields.required "health"
      enabled := ← fields.required "enabled"
      closed := ← fields.required "closed"
      leveraged := ← fields.required "leveraged_lp_amount"
      leverageMax := ← fields.required "leverage_max" }

end Pool

instance : JsonCodec PositionKey where
  toJson k := record [("owner", toJson k.owner), ("id", toJson k.id)]
  ofJson? j := do
    let fields ← fields? ["owner", "id"] false j
    return { owner := ← fields.required "owner", id := ← fields.required "id" }

namespace Position

/-- The names of a position's fields, in the order in which they are written. -/
def names : List String :=
  ["id", "owner", "amm_pool_id", "direction", "leverage", "health", "collateral_asset",
   "collateral_amount", "free_collateral", "take_profit_price", "custody_asset",
   "custody_amount", "borrow_asset", "liabilities", "interest_paid_collateral",
   "interest_paid_custody", "interest_unpaid_collateral", "opened_at", "last_interest_time"]

instance : JsonCodec Position where
  toJson p := record
    [("id", toJson p.id),
     ("owner", toJson p.owner),
     ("amm_pool_id", toJson p.pool),
     ("direction", toJson p.direction),
     ("leverage", toJson p.leverage),
     ("health", toJson p.health),
     ("collateral_asset", toJson p.collateral.denom),
     ("collateral_amount", toJson p.collateral.amount),
     ("free_collateral", toJson p.freeCollateral),
     ("take_profit_price", toJson p.takeProfit),
     ("custody_asset", toJson p.custody.denom),
     ("custody_amount", toJson p.custody.amount),
     ("borrow_asset", toJson p.borrowAsset),
     ("liabilities", toJson p.liabilities),
     ("interest_paid_collateral", toJson p.interestPaid),
     ("interest_paid_custody", toJson p.interestPaidCustody),
     ("interest_unpaid_collateral", toJson p.interestUnpaid),
     ("opened_at", toJson p.openedAt),
     ("last_interest_time", toJson p.accruedUntil)]
  ofJson? j := do
    let fields ← fields? names false j
    return {
      id := ← fields.required "id"
      owner := ← fields.required "owner"
      pool := ← fields.required "amm_pool_id"
      direction := ← fields.required "direction"
      leverage := ← fields.required "leverage"
      health := ← fields.required "health"
      collateral :=
        ⟨← fields.required "collateral_asset", ← fields.required "collateral_amount"⟩
      freeCollateral := ← fields.required "free_collateral"
      takeProfit := ← fields.orValue "take_profit_price" none
      custody := ⟨← fields.required "custody_asset", ← fields.required "custody_amount"⟩
      borrowAsset := ← fields.required "borrow_asset"
      liabilities := ← fields.required "liabilities"
      interestPaid := ← fields.required "interest_paid_collateral"
      interestPaidCustody := ← fields.required "interest_paid_custody"
      interestUnpaid := ← fields.required "interest_unpaid_collateral"
      openedAt := ← fields.required "opened_at"
      accruedUntil := ← fields.required "last_interest_time" }

end Position

end LeveragedLp

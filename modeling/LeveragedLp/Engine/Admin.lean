import LeveragedLp.Engine.Basic

/-!
# Administration

Parameters and pools are set by the operators of the chain. The interest policy decides how a
position's unpaid interest is recorded, so it changes only while no position is open. Closing a
pool is final.
-/

set_option autoImplicit false

namespace LeveragedLp

namespace Engine

variable (e : Engine)

/-- Replaces the parameters; open positions are judged by the new ones from then on. -/
def updateParams (params : Params) : Except Fault Engine := do
  params.validate
  if params.interestPolicy ≠ e.params.interestPolicy ∧ 0 < e.book.positions.size then
    throw (.invalidParams
      (.policyChange e.params.interestPolicy params.interestPolicy e.book.positions.size))
  return { e with params }

/-- Refuses a limit of leverage below one. -/
def checkLeverageMax (leverageMax : Decimal) : Except Fault Unit :=
  if leverageMax < .one then .error (.invalidLeverage leverageMax leverageMax) else .ok ()

/-- Tracks a pool that was not tracked before. -/
def createPool (pool : UInt64) (leverageMax : Decimal) (enabled : Bool) : Except Fault Engine := do
  if (e.book.pool? pool).isSome then throw (.invalidParams (.poolExists pool))
  checkLeverageMax leverageMax
  return e.withPool (.fresh pool leverageMax enabled)

/-- Enables or disables a pool; a closed one is not enabled again. -/
def setPoolEnabled (pool : UInt64) (enabled : Bool) : Except Fault Engine := do
  let tracked ← e.book.pool pool
  if tracked.closed ∧ enabled then throw (.poolUnavailable pool .closed)
  return e.withPool { tracked with enabled }

/-- Closes a pool for good; the sweep winds its positions down. -/
def closePool (pool : UInt64) : Except Fault Engine := do
  let tracked ← e.book.pool pool
  return e.withPool { tracked with closed := true, enabled := false }

/-- Sets the limit of leverage of a pool. -/
def updateLeverageMax (pool : UInt64) (leverageMax : Decimal) : Except Fault Engine := do
  checkLeverageMax leverageMax
  let tracked ← e.book.pool pool
  return e.withPool { tracked with leverageMax }

/-- Tracks the pools of a list that are not tracked yet, disabled; the result names them. Pools
tracked before a failure stay tracked. -/
def trackPools (leverageMax : Decimal) : List UInt64 → Engine → Except Fault (List UInt64) × Engine
  | [], e => (.ok [], e)
  | pool :: pools, e =>
    if (e.book.pool? pool).isSome then trackPools leverageMax pools e
    else match e.createPool pool leverageMax false with
      | .error fault => (.error fault, e)
      | .ok e' =>
        let (created, e'') := trackPools leverageMax pools e'
        (created.map (pool :: ·), e'')

/-- Tracks every pool that the host lists and the engine does not know. -/
def registerAmmPools {σ κ : Type} (h : Host σ κ) (leverageMax : Decimal) (s : σ) :
    Except Fault (List UInt64) × Engine :=
  trackPools leverageMax ((h.liquidityPools s).map PoolListing.id) e

end Engine

end LeveragedLp

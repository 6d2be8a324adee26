import LeveragedLp.Position

/-!
# Events

The events of the engine tell an outside reader what happened to a position. They show its
decimals in the ledger's form.
-/

set_option autoImplicit false

namespace LeveragedLp

/-- What events tell about a position. -/
structure PositionSummary where
  id : UInt64
  owner : Address
  pool : UInt64
  collateral : Coin
  repayAmount : Amount
  leverage : String
  liabilities : Amount
  interestPaid : Amount
  health : String
deriving DecidableEq

/-- The summary of a position of whose debt `repaid` was repaid. -/
def Position.summary (p : Position) (repaid : Amount) : PositionSummary where
  id := p.id
  owner := p.owner
  pool := p.pool
  collateral := p.collateral
  repayAmount := repaid
  leverage := p.leverage.ledgerText
  liabilities := p.liabilities
  interestPaid := p.interestPaid
  health := p.health.ledgerText

/-- What the engine reports. -/
inductive Event where
  | opened (position : PositionSummary)
  | collateralAdded (position : PositionSummary) (amount : Amount)
  | closed (position : PositionSummary) (reason : CloseReason)
  | forceClosed (position : PositionSummary) (reason : CloseReason)
  /-- A debt that was not repaid, forgiven and handed to the insurance fund. -/
  | shortfallWrittenOff (id : UInt64) (owner : Address) (pool : UInt64) (shortfall : Coin)
  /-- An accrual that failed, with the fault in words. -/
  | interestSkipped (id : UInt64) (owner : Address) (fault : String)
deriving DecidableEq

namespace Event

/-- The number of the position an event is about. -/
def positionId : Event → UInt64
  | opened position => position.id
  | collateralAdded position _ => position.id
  | closed position _ => position.id
  | forceClosed position _ => position.id
  | shortfallWrittenOff id _ _ _ => id
  | interestSkipped id _ _ => id

/-- The event of a close: one the owner wanted, or one forced. -/
def ofClose (position : PositionSummary) : CloseReason → Event
  | .user => closed position .user
  | .takeProfit => closed position .takeProfit
  | .liquidation => forceClosed position .liquidation
  | .poolWindDown => forceClosed position .poolWindDown

end Event

end LeveragedLp

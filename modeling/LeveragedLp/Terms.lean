/-!
# Terms of a position

The choices an owner, an operator or the engine makes about a position: its direction, how unpaid
interest is carried, and why it was closed.
-/

set_option autoImplicit false

namespace LeveragedLp

/-- The side of the market a position takes. -/
inductive Direction where
  | long
  | short
deriving DecidableEq

/-- How interest that free collateral does not cover is carried. -/
inductive InterestPolicy where
  /-- It is added to the liabilities and bears interest itself. -/
  | stacked
  /-- It waits beside the liabilities and is asked for again each epoch. -/
  | separate
deriving DecidableEq

/-- Why a position was settled. -/
inductive CloseReason where
  | user
  | takeProfit
  | liquidation
  | poolWindDown
deriving DecidableEq

/-- Height and time, in seconds, of the block being processed. -/
structure Block where
  height : UInt64
  time : UInt64
deriving DecidableEq

/-- The word for a direction in messages. -/
def Direction.text : Direction → String
  | .long => "LONG"
  | .short => "SHORT"

/-- The word for a policy in messages. -/
def InterestPolicy.text : InterestPolicy → String
  | .stacked => "Stacked"
  | .separate => "Separate"

/-- The word for a reason in events. -/
def CloseReason.text : CloseReason → String
  | .user => "user"
  | .takeProfit => "take_profit"
  | .liquidation => "liquidation"
  | .poolWindDown => "pool_wind_down"

end LeveragedLp

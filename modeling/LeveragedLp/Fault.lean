import LeveragedLp.Account
import LeveragedLp.Asset
import LeveragedLp.Decimal.Text
import LeveragedLp.Terms
import LeveragedLp.Text.Quoted

/-!
# Faults

What can go wrong, by cause. `HostFault` lists the failures the surrounding chain reports,
`Fault` those of the engine; a fault keeps the values that caused it, and `Fault.message` is the
one place where a fault is put into words. A host's failure to move funds becomes a fault of the
engine by `Fault.ofMovement`: missing funds stay apart from every other obstacle.
-/

set_option autoImplicit false

namespace LeveragedLp

/-! ## Failures of the host -/

/-- What the surrounding chain reports when a call fails. -/
inductive HostFault where
  | noRoute (source target : String)
  | unknownPool (pool : UInt64)
  | insufficientLiquidity (detail : String)
  | insufficientFunds (held needed : Amount)
  | priceUnavailable (asset : String)
  | slippage (got least : Amount)
  | rejected (detail : String)
deriving DecidableEq

/-- The host's failure in words. -/
def HostFault.message : HostFault → String
  | noRoute source target => s!"no route from {source} to {target}"
  | unknownPool pool => s!"pool {pool.toNat} not found"
  | insufficientLiquidity detail => s!"insufficient pool liquidity: {detail}"
  | insufficientFunds held needed => s!"insufficient funds: have {held.text}, need {needed.text}"
  | priceUnavailable asset => s!"price unavailable for {asset}"
  | slippage got least => s!"slippage: got {got.text}, minimum {least.text}"
  | rejected detail => s!"rejected: {detail}"

/-- The movements of funds the engine asks for. -/
inductive Movement where
  | collateralTransfer
  | topUp
  | borrow
  | swap
  | repay
  | interestPayment
  | writeOff
  | insurance
  | ownerPayout
deriving DecidableEq

/-- What a movement is called in messages. -/
def Movement.text : Movement → String
  | collateralTransfer => "collateral transfer"
  | topUp => "collateral top-up"
  | borrow => "borrow"
  | swap => "swap"
  | repay => "repay"
  | interestPayment => "interest payment"
  | writeOff => "write off"
  | insurance => "insurance"
  | ownerPayout => "owner payout"

/-! ## Causes -/

/-- Why a text or a denomination is refused. -/
inductive AssetFault where
  | malformed (text : String)
  | notLendingDenom (requested lending : Denom)
  | notBorrowAsset (expected given : Denom)
deriving DecidableEq

def AssetFault.message : AssetFault → String
  | malformed text => text
  | notLendingDenom requested lending =>
    s!"borrow asset {requested.text} is not the lending denom {lending.text}"
  | notBorrowAsset expected given => s!"collateral top-up must be {expected.text}, got {given.text}"

/-- Which amount has to be positive. -/
inductive AmountFault where
  | collateral
  | topUp
deriving DecidableEq

def AmountFault.message : AmountFault → String
  | collateral => "collateral must be positive"
  | topUp => "top-up must be positive"

/-- Why a pool does not serve. -/
inductive PoolRefusal where
  | untracked
  | closed
  | disabled
  | host (fault : HostFault)
deriving DecidableEq

def PoolRefusal.message : PoolRefusal → String
  | untracked => "pool not found"
  | closed => "pool closed"
  | disabled => "pool disabled"
  | host fault => fault.message

/-- Where liquidity is missing. -/
inductive LiquidityGap where
  | noRoute (source target : Denom)
  | lending (available requested : Amount)
  | movement (movement : Movement) (fault : HostFault)
deriving DecidableEq

def LiquidityGap.message : LiquidityGap → String
  | noRoute source target => s!"no route from {source.text} to {target.text}"
  | lending available requested =>
    s!"lending facility has {available.text} available, {requested.text} requested"
  | movement m fault => s!"{m.text}: {fault.message}"

/-- Why one asset has no value in another. -/
inductive ValuationGap where
  | noRoute
  | host (fault : HostFault)
deriving DecidableEq

def ValuationGap.message : ValuationGap → String
  | noRoute => "no route"
  | host fault => fault.message

/-- Which rule a change of the parameters breaks. -/
inductive ParamsFault where
  | liquidationThreshold
  | safeThreshold (safe liquidation : Decimal)
  | poolOpenThreshold
  | epochLength
  | policyChange (current requested : InterestPolicy) (positions : Nat)
  | poolExists (pool : UInt64)
deriving DecidableEq

def ParamsFault.message : ParamsFault → String
  | liquidationThreshold => "liquidation_threshold must be positive"
  | safeThreshold safe liquidation =>
    s!"safe_threshold {safe.text} below liquidation_threshold {liquidation.text}"
  | poolOpenThreshold => "pool_open_threshold must be within [0, 1]"
  | epochLength => "epoch_length must be > 0"
  | policyChange current requested positions =>
    s!"interest policy cannot change from {current.text} to {requested.text} " ++
      s!"with {positions} open positions"
  | poolExists pool => s!"pool {pool.toNat} already exists"

/-- Which account of a pool's exposure does not add up. -/
inductive ExposureBreach where
  | release (pool : UInt64) (released registered : Amount)
  | excess (pool : UInt64) (leveraged total : Amount)
deriving DecidableEq

def ExposureBreach.message : ExposureBreach → String
  | release pool released registered =>
    s!"pool {pool.toNat} releases {released.text} with only {registered.text} registered"
  | excess pool leveraged total =>
    s!"pool {pool.toNat} leveraged amount {leveraged.text} exceeds total shares {total.text}"

/-! ## Faults of the engine -/

/-- Why an operation of the engine fails. -/
inductive Fault where
  | invalidLeverage (leverage most : Decimal)
  | invalidAsset (cause : AssetFault)
  | invalidAddress (text : String)
  | invalidAmount (cause : AmountFault)
  | unsupportedDirection (direction : Direction)
  | positionNotFound (owner : Address) (id : UInt64)
  | invalidTakeProfit (price current : Decimal)
  | maxOpenPositions (limit : UInt64)
  | poolUnavailable (pool : UInt64) (cause : PoolRefusal)
  | poolCapacityExceeded (pool : UInt64) (health threshold : Decimal)
  | insufficientLiquidity (cause : LiquidityGap)
  | insufficientFunds (movement : Movement) (held needed : Amount)
  | valuationUnavailable (source target : Denom) (cause : ValuationGap)
  | unsafePosition (health threshold : Decimal)
  | degenerateHealth
  | overflow (quantity : String)
  | invariantViolation (cause : ExposureBreach)
  | invalidParams (cause : ParamsFault)
  | config
deriving DecidableEq

namespace Fault

/-- The fault in words. -/
def message : Fault → String
  | invalidLeverage leverage most =>
    s!"invalid leverage {leverage.text}: must be within [1, {most.text}]"
  | invalidAsset cause => s!"invalid asset: {cause.message}"
  | invalidAddress text => s!"invalid address: {Text.quoted text}"
  | invalidAmount cause => s!"invalid amount: {cause.message}"
  | unsupportedDirection direction =>
    s!"direction {direction.text} is not supported for leveraged lp"
  | positionNotFound owner id => s!"position {id.toNat} not found for {owner.text}"
  | invalidTakeProfit price current =>
    s!"invalid take profit price {price.text}: must exceed current price {current.text}"
  | maxOpenPositions limit => s!"max open positions reached ({limit.toNat})"
  | poolUnavailable pool cause => s!"pool {pool.toNat} unavailable: {cause.message}"
  | poolCapacityExceeded pool health threshold =>
    s!"pool {pool.toNat} capacity exceeded: health {health.shortText} below {threshold.text}"
  | insufficientLiquidity cause => s!"insufficient liquidity: {cause.message}"
  | insufficientFunds movement held needed =>
    let cause := HostFault.insufficientFunds held needed
    s!"insufficient funds: {movement.text}: {cause.message}"
  | valuationUnavailable source target cause =>
    s!"valuation of {source.text} in {target.text} unavailable: {cause.message}"
  | unsafePosition health threshold =>
    s!"position health {health.shortText} below safe threshold {threshold.text}"
  | degenerateHealth => "health undefined: liabilities are zero"
  | overflow quantity => s!"arithmetic overflow: {quantity}"
  | invariantViolation cause => s!"invariant violated: {cause.message}"
  | invalidParams cause => s!"invalid params: {cause.message}"
  | config => "config error"

/-- The fault of a movement of funds that the host failed to make. -/
def ofMovement (movement : Movement) : HostFault → Fault
  | .insufficientFunds held needed => insufficientFunds movement held needed
  | fault => insufficientLiquidity (.movement movement fault)

end Fault

end LeveragedLp

import LeveragedLp.Checked

/-!
# Parameters

The thresholds a position and a pool are judged by, the length of an interest epoch in blocks,
and how many positions may be open. `Params.validate` says which parameters the engine accepts.
-/

set_option autoImplicit false

namespace LeveragedLp

/-- The parameters of the engine. -/
structure Params where
  /-- The asset in which custody and debt are valued. -/
  baseCurrency : Denom
  /-- A position at or below this health is liquidated. -/
  liquidationThreshold : Decimal
  /-- The least health a position may be opened with. -/
  safeThreshold : Decimal
  /-- The least health a pool may be left with by an opening. -/
  poolOpenThreshold : Decimal
  /-- Blocks in an interest epoch. -/
  epochLength : UInt64
  maxOpenPositions : UInt64
  interestPolicy : InterestPolicy
deriving DecidableEq

namespace Params

/-- The parameters where nothing else is said. -/
def standard : Params where
  baseCurrency := .usdc
  liquidationThreshold := .tenths 10
  safeThreshold := .tenths 11
  poolOpenThreshold := .hundredths 65
  epochLength := 1
  maxOpenPositions := 9999
  interestPolicy := .stacked

/-- The first rule that the parameters break, if any. -/
def validate (p : Params) : Except Fault Unit := do
  if p.liquidationThreshold ≤ .zero then
    throw (.invalidParams .liquidationThreshold)
  if p.safeThreshold < p.liquidationThreshold then
    throw (.invalidParams (.safeThreshold p.safeThreshold p.liquidationThreshold))
  if p.poolOpenThreshold < .zero ∨ .one < p.poolOpenThreshold then
    throw (.invalidParams .poolOpenThreshold)
  if p.epochLength = 0 then
    throw (.invalidParams .epochLength)

/-- Blocks in an epoch, at least one. -/
def blocksPerEpoch (p : Params) : UInt64 := if p.epochLength = 0 then 1 else p.epochLength

/-- The epoch a height falls in. -/
def epochOf (p : Params) (height : UInt64) : UInt64 := height / p.blocksPerEpoch

/-- Whether an epoch begins at a height. -/
def isEpochBoundary (p : Params) (height : UInt64) : Bool := height % p.blocksPerEpoch == 0

/-- Whether a position of this health is to be liquidated. -/
def isLiquidatable (p : Params) (health : Decimal) : Bool := health ≤ p.liquidationThreshold

/-- Whether a position of this health may be opened. -/
def isSafe (p : Params) (health : Decimal) : Bool := p.safeThreshold ≤ health

end Params

end LeveragedLp

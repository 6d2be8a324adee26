import LeveragedLp.Engine.Basic

/-!
# Opening a position

The engine takes the collateral in, borrows what the leverage asks for, and swaps both into
shares of the pool. Only then is the position judged: by its own health, and by what its shares
leave of the pool's. A refusal at any point undoes all that the host did.

An open position may be topped up in the borrow asset. What is added stays outside the pool, as
free collateral that pays interest and backs the debt.
-/

set_option autoImplicit false

namespace LeveragedLp

namespace OpenRequest

variable {σ κ : Type} (h : Host σ κ) (r : OpenRequest)

/-- The shares the position is to hold. -/
def shares : Denom := .poolShare r.pool

/-- Takes the collateral in; the result is its worth in the borrow asset. -/
def collect : HostM σ Amount := do
  HostM.moving .collateralTransfer (h.send r.owner .engine r.collateral)
  if r.collateral.denom = r.borrowAsset then pure r.collateral.amount
  else h.trade r.collateral r.borrowAsset .one

/-- Borrows an amount that the lending facility has. -/
def borrow (amount : Amount) : HostM σ Unit := do
  HostM.reading fun s =>
    if h.available s < amount then
      .error (.insufficientLiquidity (.lending (h.available s) amount))
    else .ok ()
  HostM.moving .borrow (h.borrow .engine amount)

/-- Borrows what the leverage asks for beyond the collateral's worth; nothing at leverage one. -/
def lever (worth : Amount) : HostM σ Amount := do
  let liabilities ← HostM.ofExcept (worth.times r.leverage.excessOverOne)
  if liabilities.isZero then pure liabilities
  else do
    borrow h liabilities
    pure liabilities

/-- Swaps collateral and borrowed funds into shares of the pool. -/
def join (worth liabilities : Amount) : HostM σ Amount := do
  let principal ← HostM.ofExcept (worth.add liabilities "principal")
  h.trade ⟨r.borrowAsset, principal⟩ r.shares .one

/-- The record of the position, its health still to be found. -/
def position (id : UInt64) (block : Block) (liabilities custody : Amount) : Position where
  id := id
  owner := r.owner
  pool := r.pool
  direction := r.direction
  leverage := r.leverage
  health := .zero
  collateral := r.collateral
  freeCollateral := .zero
  takeProfit := r.takeProfit
  custody := ⟨r.shares, custody⟩
  borrowAsset := r.borrowAsset
  liabilities := liabilities
  interestPaid := .zero
  interestPaidCustody := .zero
  interestUnpaid := .zero
  openedAt := block.time
  accruedUntil := block.time

end OpenRequest

namespace Engine

variable {σ κ : Type} (h : Host σ κ) (e : Engine)

/-- Refuses a take profit that the price has reached already. -/
def checkTakeProfit (r : OpenRequest) (s : σ) : Except Fault Unit :=
  match r.takeProfit with
  | none => .ok ()
  | some price => do
    let current ← e.priceOf h r.shares s
    if price ≤ current then throw (.invalidTakeProfit price current)

/-- Refuses a request before any funds move. -/
def checkRequest (r : OpenRequest) (s : σ) : Except Fault Unit := do
  if r.collateral.amount.isZero then throw (.invalidAmount .collateral)
  if r.direction ≠ .long then throw (.unsupportedDirection r.direction)
  let pool ← e.book.pool r.pool
  pool.admits r.leverage
  if r.borrowAsset ≠ h.lendingDenom s then
    throw (.invalidAsset (.notLendingDenom r.borrowAsset (h.lendingDenom s)))
  if e.params.maxOpenPositions.toNat ≤ e.book.positions.size then
    throw (.maxOpenPositions e.params.maxOpenPositions)
  e.checkTakeProfit h r s

/-- The health of a new position, unless it is not safe. -/
def appraiseNew (p : Position) (s : σ) : Except Fault Decimal := do
  let health ← h.healthOrMax e.params s p
  if e.params.isSafe health then pure health
  else throw (.unsafePosition health e.params.safeThreshold)

/-- Enters the shares of a new position on its pool, and refuses what leaves the pool too little
free. -/
def expose (pool : UInt64) (shares total : Amount) : EngineM σ Unit := do
  let tracked ← EngineM.asking fun e _ => e.book.pool pool
  let registered ← HostM.ofExcept (tracked.register shares)
  EngineM.altering (withPool · registered)
  let refreshed ← HostM.ofExcept (registered.refresh total)
  EngineM.altering (withPool · refreshed)
  EngineM.asking fun e _ =>
    if refreshed.health < e.params.poolOpenThreshold then
      .error (.poolCapacityExceeded pool refreshed.health e.params.poolOpenThreshold)
    else .ok ()

/-- Opens a position; its number is the next of the book. -/
def openPosition (r : OpenRequest) (block : Block) : EngineM σ Response :=
  EngineM.atomically h do
    EngineM.asking fun e => e.checkRequest h r
    let worth ← EngineM.onHost (r.collect h)
    let liabilities ← EngineM.onHost (r.lever h worth)
    let custody ← EngineM.onHost (r.join h worth liabilities)
    let id ← EngineM.allocate
    let p := r.position id block liabilities custody
    let health ← EngineM.asking fun e => e.appraiseNew h p
    let total ← EngineM.asking fun _ => h.sharesOf r.pool
    expose r.pool custody total
    let p := { p with health }
    EngineM.altering fun e => e.emit (.opened (p.summary .zero))
    EngineM.altering fun e => e.withPosition p
    return {
      positionId := p.id
      finalCollateral := r.collateral.amount
      liabilities
      health
      interestPaid := .zero
      repayAmount := .zero }

/-! ## Topping up -/

/-- Refuses a coin that is no top-up of a position: only the borrow asset is taken, and not
nothing of it. -/
def checkTopUp (p : Position) (coin : Coin) : Except Fault Unit :=
  if coin.denom ≠ p.borrowAsset then
    .error (.invalidAsset (.notBorrowAsset p.borrowAsset coin.denom))
  else if coin.amount.isZero then .error (.invalidAmount .topUp)
  else .ok ()

/-- The position with an amount added to its free collateral. -/
def topUp (p : Position) (amount : Amount) : Except Fault Position := do
  let freeCollateral ← p.freeCollateral.add amount "free collateral"
  return { p with freeCollateral }

/-- Adds collateral in the borrow asset to a position; the result is its new health. -/
def addCollateral (k : PositionKey) (coin : Coin) : EngineM σ Decimal :=
  EngineM.atomically h do
    let p ← EngineM.asking fun e _ => e.book.position k
    HostM.ofExcept (checkTopUp p coin)
    EngineM.onHost (HostM.moving .topUp (h.send k.owner .engine coin))
    let p ← HostM.ofExcept (topUp p coin.amount)
    let health ← EngineM.asking fun e s => h.healthOrMax e.params s p
    let p := { p with health }
    EngineM.altering fun e => e.emit (.collateralAdded (p.summary .zero) coin.amount)
    EngineM.altering fun e => e.withPosition p
    return health

end Engine

end LeveragedLp

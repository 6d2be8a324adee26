import LeveragedLp.Engine.Basic
import LeveragedLp.Interest

/-!
# Settling a position

A settlement charges the interest since the last accrual, swaps the custody back into the borrow
asset, and pays in order: the debt first, as far as proceeds and free collateral reach; what they
do not reach is written off and handed to the insurance fund; what is left goes to the owner.
`Settlement` records the amounts, and the answer and the event of a close are read off it. The
event of a loss is told as soon as the loss is written off.

Whether a position may be force closed is decided by reading alone (`Engine.eligibility`), on the
interest that the settlement would charge.
-/

set_option autoImplicit false

namespace LeveragedLp

/-- What a settlement did. -/
structure Settlement where
  /-- The position as it was closed, its last interest charged. -/
  position : Position
  reason : CloseReason
  /-- The interest charged by the settlement. -/
  accrual : Accrual
  debt : Amount
  /-- What the custody was swapped for. -/
  proceeds : Amount
  repaid : Amount
  shortfall : Amount
  /-- What the owner got back. -/
  payout : Amount
deriving DecidableEq

namespace Settlement

/-- The answer to the caller. -/
def response (t : Settlement) : Response where
  positionId := t.position.id
  finalCollateral := t.payout
  liabilities := t.debt
  health := t.position.health
  interestPaid := t.position.interestPaid
  repayAmount := t.repaid

/-- The event of the close. -/
def event (t : Settlement) : Event := Event.ofClose (t.position.summary t.repaid) t.reason

end Settlement

/-! ## Moving the funds -/

namespace Position

variable {σ κ : Type} (h : Host σ κ) (p : Position)

/-- Swaps the custody back into the borrow asset. -/
def redeem : HostM σ Amount :=
  if p.custody.amount.isZero then pure .zero else h.trade p.custody p.borrowAsset .zero

/-- Repays an amount of the debt. -/
def repay (amount : Amount) : HostM σ Unit :=
  if amount.isZero then pure () else HostM.moving .repay (h.repay .engine amount)

/-- A loss on the position as a coin of the borrow asset. -/
def loss (amount : Amount) : Coin := ⟨p.borrowAsset, amount⟩

/-- Writes a loss off and hands it to the insurance fund. -/
def forgive (amount : Amount) : HostM σ Unit :=
  if amount.isZero then pure ()
  else do
    HostM.moving .writeOff (h.writeOff amount)
    HostM.moving .insurance (h.absorb p.pool (p.loss amount))

/-- What is told of a loss; nothing where there is none. -/
def lossEvents (amount : Amount) : List Event :=
  if amount.isZero then []
  else [.shortfallWrittenOff p.id p.owner p.pool (p.loss amount)]

/-- Sends the owner what is left. -/
def payOut (amount : Amount) : HostM σ Unit :=
  if amount.isZero then pure ()
  else HostM.moving .ownerPayout (h.send .engine p.owner ⟨p.borrowAsset, amount⟩)

end Position

namespace Engine

variable {σ κ : Type} (h : Host σ κ) (e : Engine)

/-- The interest a settlement charges, and the position with it charged. -/
def chargeUp (p : Position) (now : UInt64) (s : σ) : Except Fault (Accrual × Position) := do
  let accrual ← p.planSettlement e.params.interestPolicy (h.interestRate s) now
  let charged ← p.accrue accrual e.params.interestPolicy
  return (accrual, charged)

/-- The health at a close. The winding down of a pool does not wait for quotes: where the shares
have no value, the last known health stands. -/
def closingHealth (p : Position) (reason : CloseReason) (s : σ) : Except Fault Decimal :=
  match h.healthOrMax e.params s p, reason with
  | .ok health, _ => .ok health
  | .error _, .poolWindDown => .ok p.health
  | .error fault, _ => .error fault

/-- Takes the shares of a position off its pool. -/
def unexpose (p : Position) (total : Amount) : EngineM σ Unit := do
  let pool ← EngineM.asking fun e _ => e.book.pool p.pool
  let released ← HostM.ofExcept (pool.release p.custody.amount)
  EngineM.altering (withPool · released)
  let refreshed ← HostM.ofExcept (released.refresh total)
  EngineM.altering (withPool · refreshed)

/-- Pays out of the position's funds: debt, write-off, owner. -/
def distribute (p : Position) (reason : CloseReason) (accrual : Accrual) :
    EngineM σ Settlement := do
  let debt ← EngineM.asking fun e _ => p.debt e.params.interestPolicy
  let proceeds ← EngineM.onHost (p.redeem h)
  let funds ← HostM.ofExcept (proceeds.add p.freeCollateral "settlement funds")
  let repaid := debt.least funds
  EngineM.onHost (Position.repay h repaid)
  let shortfall ← HostM.ofExcept (debt.sub repaid "shortfall")
  EngineM.onHost (p.forgive h shortfall)
  EngineM.altering fun e => e.emitAll (p.lossEvents shortfall)
  let payout ← HostM.ofExcept (funds.sub repaid "owner remainder")
  EngineM.onHost (p.payOut h payout)
  return { position := p, reason, accrual, debt, proceeds, repaid, shortfall, payout }

/-- Settles a position of the book. -/
def settle (p : Position) (reason : CloseReason) (block : Block) : EngineM σ Settlement := do
  let (accrual, charged) ← EngineM.asking fun e => e.chargeUp h p block.time
  let health ← EngineM.asking fun e => e.closingHealth h charged reason
  let p := { charged with health }
  let settlement ← distribute h p reason accrual
  let total ← EngineM.asking fun _ => h.sharesOf p.pool
  unexpose p total
  EngineM.altering fun e => { e with book := e.book.remove p.key }
  EngineM.altering fun e => e.emit settlement.event
  return settlement

/-! ## Closing -/

/-- Closes a position because its owner wants it. -/
def close (k : PositionKey) (block : Block) : EngineM σ Settlement :=
  EngineM.atomically h do
    let p ← EngineM.asking fun e _ => e.book.position k
    settle h p .user block

/-- Whether a position is to be closed against its owner's will. -/
inductive Eligibility where
  | close (reason : CloseReason)
  | healthy (health : Decimal)
deriving DecidableEq

/-- Judges a position: a closed pool is wound down whatever the health; otherwise the health
decides, with the interest charged that a settlement would charge. -/
def eligibility (p : Position) (block : Block) (s : σ) : Except Fault Eligibility :=
  if (e.book.pool? p.pool).any Pool.closed then .ok (.close .poolWindDown)
  else do
    let (_, charged) ← e.chargeUp h p block.time s
    let health ← h.healthOrMax e.params s charged
    if e.params.isLiquidatable health then pure (.close .liquidation) else pure (.healthy health)

/-- The answer to an attempt to force a close. -/
inductive ForceCloseOutcome where
  | closed (settlement : Settlement)
  | notEligible (health : Decimal)
deriving DecidableEq

/-- Closes a position that is eligible; of another it only tells the health. -/
def forceClose (k : PositionKey) (block : Block) : EngineM σ ForceCloseOutcome := do
  let p ← EngineM.asking fun e _ => e.book.position k
  match ← EngineM.asking fun e => e.eligibility h p block with
  | .healthy health => return .notEligible health
  | .close reason => do
    let settlement ← EngineM.atomically h (settle h p reason block)
    return .closed settlement

end Engine

end LeveragedLp

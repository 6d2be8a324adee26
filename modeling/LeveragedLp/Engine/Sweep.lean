import LeveragedLp.Engine.Epoch
import LeveragedLp.Engine.Settlement

/-!
# The sweep of a block

At every block the engine first accrues interest, if an epoch begins, and then visits all
positions in the order of their keys. A position is settled if its pool is closed, if it is at or
below the liquidation threshold, or if its custody has reached the take profit price. A failure
to judge or to settle a position leaves it as it was and does not keep the sweep from the others.
-/

set_option autoImplicit false

namespace LeveragedLp

/-- What the engine did at a block. A visit that left a position open has no settlement. -/
structure BlockReport where
  accrual : Option AccrualReport
  visits : Visits (Option Settlement)

namespace BlockReport

/-- The positions settled for a reason. -/
def settledFor (r : BlockReport) (reason : CloseReason) : List PositionKey :=
  r.visits.keysWhere fun
    | .ok (some settlement) => settlement.reason == reason
    | _ => false

def liquidated (r : BlockReport) : List PositionKey := r.settledFor .liquidation

def woundDown (r : BlockReport) : List PositionKey := r.settledFor .poolWindDown

def tookProfit (r : BlockReport) : List PositionKey := r.settledFor .takeProfit

/-- The positions that could not be judged or settled. -/
def failed (r : BlockReport) : List PositionKey := r.visits.keysWhere fun x => !x.isOk

end BlockReport

namespace Engine

variable {σ κ : Type} (h : Host σ κ)

/-- Whether the custody of a position has reached its take profit price. -/
def reachesTakeProfit (e : Engine) (p : Position) (s : σ) : Except Fault Bool :=
  match p.takeProfit with
  | none => .ok false
  | some target => do
    let price ← e.priceOf h p.custody.denom s
    return target ≤ price

/-- Why a position is to be settled in a sweep, if it is. -/
def sweepReason (e : Engine) (p : Position) (block : Block) (s : σ) :
    Except Fault (Option CloseReason) := do
  match ← e.eligibility h p block s with
  | .close reason => return some reason
  | .healthy _ => return if ← e.reachesTakeProfit h p s then some .takeProfit else none

/-- Judges one position, and settles it if there is a reason. -/
def sweepPosition (k : PositionKey) (block : Block) : EngineM σ (Option Settlement) := do
  let p ← EngineM.asking fun e _ => e.book.position k
  match ← EngineM.asking fun e => e.sweepReason h p block with
  | none => return none
  | some reason => do
    let settlement ← EngineM.atomically h (settle h p reason block)
    return some settlement

/-- The visit of one position in a sweep. -/
def sweepVisit (block : Block) (k : PositionKey) (e : Engine) (s : σ) :
    Except Fault (Option Settlement) × Engine × σ :=
  sweepPosition h k block (e, s)

/-- What is done at the beginning of a block. -/
def beginBlock (e : Engine) (block : Block) (s : σ) : BlockReport × Engine × σ :=
  let (accrual, e₁, s₁) :=
    if e.params.isEpochBoundary block.height then
      let (report, e', t) := accrueEpoch h e block s
      (some report, e', t)
    else (none, e, s)
  let (visits, e₂, s₂) := visitEach (sweepVisit h block) e₁.book.positions.keys e₁ s₁
  ({ accrual, visits }, e₂, s₂)

end Engine

end LeveragedLp

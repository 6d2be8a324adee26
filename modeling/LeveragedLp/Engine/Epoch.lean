import LeveragedLp.Engine.Basic
import LeveragedLp.Interest

/-!
# The accrual of an epoch

Once in every epoch interest is charged to all positions, in the order of their keys. A position
whose accrual fails is left as it was and marked for a later attempt, and the pass goes on. Of
all this only the payment of interest touches the host, and a payment that fails is undone.
-/

set_option autoImplicit false

namespace LeveragedLp

/-- What a pass over the positions found for each, in the order of the visits. -/
abbrev Visits (α : Type) := List (PositionKey × Except Fault α)

/-- The keys of the visits whose result satisfies a condition. -/
def Visits.keysWhere {α : Type} (v : Visits α) (holds : Except Fault α → Bool) :
    List PositionKey :=
  (v.filter fun visit => holds visit.2).map Prod.fst

/-- Visits keys in turn; each visit finds the engine and the host as the one before left them. -/
def visitEach {σ α : Type} (visit : PositionKey → Engine → σ → Except Fault α × Engine × σ) :
    List PositionKey → Engine → σ → Visits α × Engine × σ
  | [], e, s => ([], e, s)
  | k :: ks, e, s =>
    let (result, e₁, s₁) := visit k e s
    let (results, e₂, s₂) := visitEach visit ks e₁ s₁
    ((k, result) :: results, e₂, s₂)

/-- What an accrual of an epoch did. -/
structure AccrualReport where
  epoch : UInt64
  /-- The epoch's interest was charged before, and nothing was done. -/
  alreadyAccrued : Bool
  visits : Visits Accrual

namespace AccrualReport

/-- The positions that were charged. -/
def accrued (r : AccrualReport) : List PositionKey := r.visits.keysWhere Except.isOk

/-- The positions whose accrual failed. -/
def skipped (r : AccrualReport) : List PositionKey := r.visits.keysWhere fun x => !x.isOk

end AccrualReport

namespace Engine

variable {σ κ : Type} (h : Host σ κ)

/-- The worth of the interest that an accrual pays, in the custody asset. -/
def paidWorth (p : Position) (planned : Accrual) (s : σ) : Except Fault Amount :=
  if planned.paid.isZero then .ok planned.paidCustody
  else h.valueOf s planned.paid p.borrowAsset p.custody.denom

/-- The accrual of a position and the position after it, its health brought up to date. -/
def planEpoch (e : Engine) (p : Position) (now : UInt64) (s : σ) :
    Except Fault (Accrual × Position) := do
  let planned ← p.planAccrual e.params.interestPolicy (h.interestRate s) now
  let paidCustody ← paidWorth h p planned s
  let accrual := { planned with paidCustody }
  let charged ← p.accrue accrual e.params.interestPolicy
  let health ← h.healthOrMax e.params s charged
  return (accrual, { charged with health })

/-- Pays interest to the lending facility, unless there is none to pay. -/
def payInterest (amount : Amount) : HostM σ Unit :=
  if amount.isZero then pure ()
  else h.atomically (HostM.moving .interestPayment (h.payInterest .engine amount))

/-- Charges one position. The health is found before anything is paid, and the record is filed
last, so that a failure at any point finds it as it was. -/
def accruePosition (k : PositionKey) (block : Block) : EngineM σ Accrual := do
  let p ← EngineM.asking fun e _ => e.book.position k
  let (accrual, charged) ← EngineM.asking fun e => e.planEpoch h p block.time
  EngineM.onHost (payInterest h accrual.paid)
  EngineM.altering fun e => e.withPosition charged
  return accrual

/-- The engine after an accrual failed: the position is marked, and an event tells why. -/
def skip (e : Engine) (k : PositionKey) (fault : Fault) : Engine :=
  { e with book := e.book.mark k }.emit (.interestSkipped k.id k.owner fault.message)

/-- The visit of one position in an epoch's accrual. -/
def accrueVisit (block : Block) (k : PositionKey) (e : Engine) (s : σ) :
    Except Fault Accrual × Engine × σ :=
  match accruePosition h k block (e, s) with
  | (.ok accrual, e', t) => (.ok accrual, { e' with book := e'.book.unmark k }, t)
  | (.error fault, e', t) => (.error fault, e'.skip k fault, t)

/-- The book with the health of one pool brought up to date, where the host tells its shares. -/
def refreshPool (s : σ) (book : Book) (pool : Pool) : Book :=
  match h.sharesOf pool.id s >>= pool.refresh with
  | .ok refreshed => book.putPool refreshed
  | .error _ => book

/-- The engine with the health of all pools brought up to date. -/
def refreshPools (e : Engine) (s : σ) : Engine :=
  { e with book := e.book.pools.toList.foldl (refreshPool h s) e.book }

/-- Charges all positions for the epoch of a block, unless that was done before. -/
def accrueEpoch (e : Engine) (block : Block) (s : σ) : AccrualReport × Engine × σ :=
  let epoch := e.params.epochOf block.height
  if e.book.lastEpoch = some epoch then
    ({ epoch, alreadyAccrued := true, visits := [] }, e, s)
  else
    let (visits, e₁, t) := visitEach (accrueVisit h block) e.book.positions.keys e s
    let e₂ := { e₁ with book := e₁.book.setEpoch epoch }
    ({ epoch, alreadyAccrued := false, visits }, refreshPools h e₂ t, t)

end Engine

end LeveragedLp

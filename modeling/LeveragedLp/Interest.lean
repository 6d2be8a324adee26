import LeveragedLp.Position

/-!
# Interest

Interest on a debt is the debt times the yearly rate times the elapsed part of the year, dropped
to whole units. An accrual is planned against a position and then applied to it, so that its
effect can be judged before any funds move. In an epoch's accrual free collateral pays what it
can; in the accrual of a settlement it pays nothing, and all that is owed joins the debt.
-/

set_option autoImplicit false

namespace LeveragedLp

/-- Seconds in the interest year of 365 days. -/
def secondsPerYear : UInt64 := 31536000

/-- Interest on `debt` at a yearly rate over some seconds. -/
def interestDue (debt : Amount) (rate : Decimal) (elapsed : UInt64) : Except Fault Amount := do
  if debt.isZero ∨ elapsed = 0 ∨ rate ≤ .zero then return .zero
  let part ← orFault (.overflow "period rate") do
    let scaled ← rate.mul? (.ofUInt64 elapsed)
    scaled.div? (.ofUInt64 secondsPerYear)
  debt.times part

/-- What interest does to one position. -/
structure Accrual where
  /-- Interest for the time since the last accrual. -/
  due : Amount
  /-- What is asked for now; the due interest and, if it is carried apart, the earlier unpaid. -/
  owed : Amount
  /-- The part of it that free collateral pays. -/
  paid : Amount
  /-- The worth of `paid` in the custody asset. -/
  paidCustody : Amount
  /-- The part of it that stays unpaid. -/
  unpaid : Amount
  /-- The time up to which interest is charged. -/
  upTo : UInt64
deriving DecidableEq

namespace Position

/-- The seconds not yet charged at a time; none if the clock moved back. -/
def elapsed (p : Position) (now : UInt64) : UInt64 :=
  if now ≤ p.accruedUntil then 0 else now - p.accruedUntil

/-- What interest is asked for: under the separate policy the earlier unpaid is asked for again. -/
def owed (p : Position) (due : Amount) : InterestPolicy → Except Fault Amount
  | .stacked => .ok due
  | .separate => due.add p.interestUnpaid "owed interest"

/-- The accrual of an epoch: free collateral pays as much as it can. -/
def planAccrual (p : Position) (policy : InterestPolicy) (rate : Decimal) (now : UInt64) :
    Except Fault Accrual := do
  let due ← interestDue p.liabilities rate (p.elapsed now)
  let owed ← p.owed due policy
  let paid := owed.least p.freeCollateral
  let unpaid ← owed.sub paid "unpaid interest"
  return {
    due, owed, paid, unpaid
    paidCustody := .zero
    upTo := if now ≤ p.accruedUntil then p.accruedUntil else now }

/-- The accrual of a settlement: nothing is paid from free collateral. -/
def planSettlement (p : Position) (policy : InterestPolicy) (rate : Decimal) (now : UInt64) :
    Except Fault Accrual := do
  let accrual ← p.planAccrual policy rate now
  return { accrual with paid := .zero, unpaid := accrual.owed }

/-- Liabilities and unpaid interest after an accrual. Stacked interest joins both; under the
separate policy what is unpaid now includes what was unpaid before. -/
def carry (p : Position) (unpaid : Amount) : InterestPolicy → Except Fault (Amount × Amount)
  | .stacked => do
    let liabilities ← p.liabilities.add unpaid "liabilities"
    let interestUnpaid ← p.interestUnpaid.add unpaid "unpaid interest"
    return (liabilities, interestUnpaid)
  | .separate => .ok (p.liabilities, unpaid)

/-- The position after an accrual. -/
def accrue (p : Position) (accrual : Accrual) (policy : InterestPolicy) :
    Except Fault Position := do
  let freeCollateral ← p.freeCollateral.sub accrual.paid "free collateral"
  let interestPaid ← p.interestPaid.add accrual.paid "interest paid"
  let interestPaidCustody ←
    p.interestPaidCustody.add accrual.paidCustody "interest paid in custody"
  let (liabilities, interestUnpaid) ← p.carry accrual.unpaid policy
  return { p with
    freeCollateral, interestPaid, interestPaidCustody, liabilities, interestUnpaid
    accruedUntil := accrual.upTo }

end Position

end LeveragedLp

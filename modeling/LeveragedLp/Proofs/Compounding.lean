import LeveragedLp.Proofs.Development
import LeveragedLp.Proofs.Ratios
import LeveragedLp.Proofs.Runs

/-!
# Compounding

Under the stacked policy unpaid interest joins the liabilities, on which further interest is due;
under the separate policy the liabilities stay what was borrowed. Two runs of the same steps from
one position, one under each policy, pay different amounts out of the free collateral at different
times, but the debt less the free collateral grows by just the interest that is due, whatever is
paid of it (`Position.Charged.netDebt_eq`). So what has to be compared is the interest: it is due
for the same seconds at the same rates, on liabilities that are never lower where they compound
(`Ahead`), and of two debts the larger is never charged less (`interestDue_mono`).
-/

set_option autoImplicit false

namespace LeveragedLp

open Engine

/-! ## Interest on a larger debt -/

/-- Interest is nothing, or a debt times a rate for the period. -/
theorem interestDue_eq_ok {debt due : Amount} {rate : Decimal} {elapsed : UInt64}
    (h : interestDue debt rate elapsed = .ok due) :
    ((debt.isZero ∨ elapsed = 0 ∨ rate ≤ .zero) ∧ due = .zero) ∨
      ((¬ debt.isZero ∧ elapsed ≠ 0 ∧ ¬ rate ≤ .zero) ∧ ∃ part scaled,
        rate.mul? (.ofUInt64 elapsed) = some scaled ∧
          scaled.div? (.ofUInt64 secondsPerYear) = some part ∧ debt.times part = .ok due) := by
  unfold interestDue at h
  by_cases hnothing : debt.isZero ∨ elapsed = 0 ∨ rate ≤ .zero
  · rw [if_pos hnothing] at h
    cases h
    exact .inl ⟨hnothing, rfl⟩
  · rw [if_neg hnothing] at h
    obtain ⟨part, hpart, h⟩ := except_bind_eq_ok.1 h
    obtain ⟨scaled, hscaled, hpart⟩ := Option.bind_eq_some_iff.1 (orFault_eq_ok.1 hpart)
    simp only [not_or] at hnothing
    exact .inr ⟨hnothing, part, scaled, hscaled, hpart, h⟩

/-- **A larger debt is not charged less**, for the same seconds at the same rate. -/
theorem interestDue_mono {debt debt' due due' : Amount} {rate : Decimal} {elapsed : UInt64}
    (hle : debt.units ≤ debt'.units) (h : interestDue debt rate elapsed = .ok due)
    (h' : interestDue debt' rate elapsed = .ok due') : due.units ≤ due'.units := by
  rcases interestDue_eq_ok h with ⟨-, rfl⟩ | ⟨⟨hzero, htime, hrate⟩, part, scaled, hmul, hdiv, hdue⟩
  · exact Nat.zero_le _
  · rcases interestDue_eq_ok h' with ⟨hnothing, -⟩ | ⟨-, part', scaled', hmul', hdiv', hdue'⟩
    · -- something is due on the smaller debt, so that the larger is not charged nothing
      rcases hnothing with hzero' | htime' | hrate'
      · rw [Amount.isZero_iff] at hzero hzero'
        omega
      · exact absurd htime' htime
      · exact absurd hrate' hrate
    · cases hmul.symm.trans hmul'
      cases hdiv.symm.trans hdiv'
      exact Amount.times_mono hle hdue hdue'

/-! ## Steps and runs -/

/-- What happens to the funds of a position while it is open. -/
inductive Upkeep where
  | topUp (amount : Amount)
  | accrue (rate : Decimal) (now : UInt64)
deriving DecidableEq

namespace Position

/-- The position after one step: a top-up of its free collateral, or the accrual of an epoch at a
rate of its own. -/
def upkeep (policy : InterestPolicy) (p : Position) : Upkeep → Except Fault Position
  | .topUp amount => topUp p amount
  | .accrue rate now => do
    let accrual ← p.planAccrual policy rate now
    p.accrue accrual policy

/-- The position after steps in turn, if all of them succeed. -/
def upkeepAll (policy : InterestPolicy) (p : Position) (steps : List Upkeep) :
    Except Fault Position :=
  steps.foldlM (upkeep policy) p

/-- The debt less the free collateral that could pay it. -/
def netDebt (p : Position) (policy : InterestPolicy) : Int :=
  (p.debtUnits policy : Int) - p.freeCollateral.units

variable {p q : Position} {policy : InterestPolicy} {accrual : Accrual} {rate : Decimal}
variable {now : UInt64}

/-- What is paid leaves debt and free collateral alike, so the difference grows by what is due. -/
theorem Charged.netDebt_eq (x : p.Charged policy accrual q) :
    q.netDebt policy = p.netDebt policy + accrual.due.units := by
  have hfree := x.free
  have hdebt := x.debt
  unfold netDebt
  omega

/-- A top-up is taken off the difference. -/
theorem netDebt_topUp (policy : InterestPolicy) {amount : Amount} (h : topUp p amount = .ok q) :
    q.netDebt policy = p.netDebt policy - amount.units := by
  obtain ⟨hq, hfree⟩ := topUp_eq_ok h
  have hdebt : q.debtUnits policy = p.debtUnits policy := by
    rw [hq]
    cases policy with
    | stacked => rfl
    | separate => rfl
  unfold netDebt
  rw [hdebt]
  omega

/-- An accrual is for the seconds since the last one, and moves the time on by them. -/
theorem upkeep_accrue (h : p.upkeep policy (.accrue rate now) = .ok q) :
    ∃ accrual, accrual.ComputedAt p rate now ∧ p.Planned policy accrual ∧
      p.Charged policy accrual q ∧
        p.Develops policy 0 accrual.paid.units (p.elapsed now).toNat q := by
  obtain ⟨accrual, hplan, haccrue⟩ := except_bind_eq_ok.1 h
  have hcomputed := planAccrual_computedAt hplan
  have hplanned := planAccrual_eq_ok hplan
  exact ⟨accrual, hcomputed, hplanned, charged_of_accrue hplanned haccrue,
    develops_of_accrue hcomputed haccrue⟩

/-- Stacked interest makes the liabilities larger, if anything. -/
theorem Charged.liabilities_le (x : p.Charged .stacked accrual q)
    (hplanned : p.Planned .stacked accrual) : p.liabilities.units ≤ q.liabilities.units := by
  have howed : accrual.due = accrual.owed := Except.ok.inj hplanned.owed
  have hsplit := hplanned.split
  have hdebt : p.liabilities.units + accrual.due.units =
      accrual.paid.units + q.liabilities.units := x.debt
  rw [← howed] at hsplit
  omega

end Position

/-! ## The two runs -/

/-- A position under the stacked policy compared with one under the separate policy: it has no
smaller liabilities and was charged up to the same time, and its net debt is not smaller. -/
structure Ahead (a b : Position) : Prop where
  liabilities : b.liabilities.units ≤ a.liabilities.units
  time : a.accruedUntil = b.accruedUntil
  net : b.netDebt .separate ≤ a.netDebt .stacked

namespace Ahead

variable {a b a' b' : Position}

/-- With nothing unpaid both policies take a position for the same. -/
theorem start {p : Position} (hunpaid : p.interestUnpaid = .zero) : Ahead p p := by
  refine ⟨Nat.le_refl _, rfl, ?_⟩
  have hsame : p.debtUnits .separate = p.debtUnits .stacked := by
    show p.liabilities.units + p.interestUnpaid.units = p.liabilities.units
    rw [hunpaid]
    rfl
  unfold Position.netDebt
  rw [hsame]

/-- A step that succeeds on both sides keeps the stacked side ahead. -/
theorem step (x : Ahead a b) {u : Upkeep} (ha : a.upkeep .stacked u = .ok a')
    (hb : b.upkeep .separate u = .ok b') : Ahead a' b' := by
  cases u with
  | topUp amount =>
      have hnetA := Position.netDebt_topUp .stacked ha
      have hnetB := Position.netDebt_topUp .separate hb
      have hnet := x.net
      refine ⟨?_, ?_, by omega⟩
      · rw [(topUp_eq_ok ha).1, (topUp_eq_ok hb).1]
        exact x.liabilities
      · rw [(topUp_eq_ok ha).1, (topUp_eq_ok hb).1]
        exact x.time
  | accrue rate now =>
      obtain ⟨dueA, hcomputedA, hplannedA, hchargedA, hdevelopsA⟩ := Position.upkeep_accrue ha
      obtain ⟨dueB, hcomputedB, hplannedB, hchargedB, hdevelopsB⟩ := Position.upkeep_accrue hb
      have helapsed : a.elapsed now = b.elapsed now := by
        unfold Position.elapsed
        rw [x.time]
      -- the interest is for the same seconds, and the stacked side owes it on more
      have hdue : dueB.due.units ≤ dueA.due.units := by
        have hA := hcomputedA.due
        rw [helapsed] at hA
        exact interestDue_mono x.liabilities hcomputedB.due hA
      have hnetA := hchargedA.netDebt_eq
      have hnetB := hchargedB.netDebt_eq
      have hnet := x.net
      have hgrown := hchargedA.liabilities_le hplannedA
      have hsame : (b'.liabilities.units : Int) = b.liabilities.units := hdevelopsB.principal
      have hbefore := x.liabilities
      refine ⟨by omega, ?_, by omega⟩
      apply UInt64.toNat_inj.1
      rw [hdevelopsA.time, hdevelopsB.time, helapsed, x.time]

/-- Steps that succeed on both sides keep the stacked side ahead. -/
theorem run {steps : List Upkeep} (x : Ahead a b) (ha : a.upkeepAll .stacked steps = .ok a')
    (hb : b.upkeepAll .separate steps = .ok b') : Ahead a' b' := by
  induction steps generalizing a b with
  | nil =>
      cases ha
      cases hb
      exact x
  | cons u rest ih =>
      obtain ⟨a₁, hua, ha⟩ := except_bind_eq_ok.1 ha
      obtain ⟨b₁, hub, hb⟩ := except_bind_eq_ok.1 hb
      exact ih (x.step hua hub) ha hb

end Ahead

namespace Position

variable {p a b : Position} {policy : InterestPolicy}

/-- Of a run that succeeds, the beginning succeeds. -/
theorem upkeepAll_append {before after : List Upkeep}
    (h : p.upkeepAll policy (before ++ after) = .ok a) :
    ∃ q, p.upkeepAll policy before = .ok q ∧ q.upkeepAll policy after = .ok a := by
  unfold upkeepAll at h
  rw [List.foldlM_append] at h
  exact except_bind_eq_ok.1 h

/-- **Compounding never favours the borrower**: of two runs of the same steps from a position with
nothing unpaid, one that stacks the unpaid interest on the liabilities and one that keeps it apart,
the first owes, after every step and less the free collateral it has left, at least as much. -/
theorem compounding_never_favours_the_borrower {before after : List Upkeep}
    (hunpaid : p.interestUnpaid = .zero)
    (ha : p.upkeepAll .stacked (before ++ after) = .ok a)
    (hb : p.upkeepAll .separate (before ++ after) = .ok b) :
    ∃ stacked separate, p.upkeepAll .stacked before = .ok stacked ∧
      p.upkeepAll .separate before = .ok separate ∧
        separate.netDebt .separate ≤ stacked.netDebt .stacked := by
  obtain ⟨stacked, hstacked, -⟩ := upkeepAll_append ha
  obtain ⟨separate, hseparate, -⟩ := upkeepAll_append hb
  exact ⟨stacked, separate, hstacked, hseparate,
    ((Ahead.start hunpaid).run hstacked hseparate).net⟩

/-- Two quarters at a yearly rate of one on 4000, of which a top-up pays 500: the 500 left unpaid
bear interest in the second quarter where they are stacked. -/
theorem second_quarter_costs_more_stacked :
    let p := Sample.opening.position 1 ⟨1, 0⟩ { units := 4000 } { units := 4884 }
    let steps : List Upkeep :=
      [.topUp { units := 500 }, .accrue .one 7884000, .accrue .one 15768000]
    ∃ stacked separate, p.upkeepAll .stacked steps = .ok stacked ∧
      p.upkeepAll .separate steps = .ok separate ∧
        stacked.netDebt .stacked = 5625 ∧ separate.netDebt .separate = 5500 ∧
          separate.netDebt .separate ≤ stacked.netDebt .stacked := by
  intro p steps
  have hstacked : (p.upkeepAll .stacked (steps ++ [])).map (netDebt · .stacked) = .ok 5625 := by
    decide +kernel
  have hseparate : (p.upkeepAll .separate (steps ++ [])).map (netDebt · .separate) = .ok 5500 := by
    decide +kernel
  obtain ⟨a, ha, hnetA⟩ := except_map_eq_ok.1 hstacked
  obtain ⟨b, hb, hnetB⟩ := except_map_eq_ok.1 hseparate
  obtain ⟨stacked, separate, ha', hb', hle⟩ := compounding_never_favours_the_borrower rfl ha hb
  cases ha.symm.trans ha'
  cases hb.symm.trans hb'
  exact ⟨a, b, ha, hb, hnetA, hnetB, hle⟩

end Position

end LeveragedLp

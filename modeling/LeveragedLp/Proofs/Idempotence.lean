import LeveragedLp.Proofs.EarlyInterest

/-!
# Interest is charged once

At the time of its last accrual, and before it, no further interest is due. A settlement then leaves
a position as it is (`Position.keeps_planSettlement`). So does the accrual of an epoch, although
under the policy that carries unpaid interest apart all that is carried is asked for again: what is
carried could not be paid, so that no free collateral is left to pay it from (`Position.Spent`).
What is filed after an accrual is therefore a fixed point of both (`interest_is_charged_once`), and
the engine that accrues again in the same block files the same record, but for the health, and calls
nobody.
-/

set_option autoImplicit false

namespace LeveragedLp

open EngineM Engine

namespace Position

variable {p q : Position} {policy : InterestPolicy} {rate : Decimal} {now : UInt64}
variable {owed worth : Amount} {planned : Accrual}

/-! ## What an accrual leaves -/

/-- Whether free collateral has paid what it can: under the policy that carries unpaid interest
apart, nothing is carried or nothing is left to pay it from. -/
def Spent (p : Position) : InterestPolicy → Prop
  | .stacked => True
  | .separate => p.interestUnpaid = .zero ∨ p.freeCollateral = .zero

/-- The accrual of an epoch pays until either the interest or the free collateral is used up. -/
theorem spent_of_accrue (hplan : p.planAccrual policy rate now = .ok planned)
    (h : p.accrue { planned with paidCustody := worth } policy = .ok q) : q.Spent policy := by
  obtain ⟨-, -, hpaid, hsplit, -⟩ := planAccrual_amounts hplan
  have haccrued := accrue_eq_ok h
  cases policy with
  | stacked => trivial
  | separate =>
      have hunpaid : q.interestUnpaid = planned.unpaid := (carry_separate_eq_ok haccrued.carry).2
      have hleft : p.freeCollateral.units = q.freeCollateral.units + planned.paid.units :=
        haccrued.free
      rw [hpaid, Amount.units_least] at hsplit hleft
      rcases Nat.le_total planned.owed.units p.freeCollateral.units with hcovered | hshort
      · left
        rw [hunpaid]
        apply Amount.ext
        show planned.unpaid.units = 0
        omega
      · right
        apply Amount.ext
        show q.freeCollateral.units = 0
        omega

/-- Under either policy what is carried can be asked for, and where the position is spent none of it
can be paid. -/
theorem Spent.owed_eq (x : p.Spent policy) :
    ∃ owed, p.owed .zero policy = .ok owed ∧ owed.least p.freeCollateral = .zero := by
  cases policy with
  | stacked => exact ⟨.zero, rfl, if_pos (Nat.zero_le _)⟩
  | separate =>
      refine ⟨p.interestUnpaid, Amount.zero_add _ _, Amount.ext ?_⟩
      rw [Amount.units_least]
      show _ = 0
      rcases x with hnothing | hnothing
      · rw [hnothing]
        exact Nat.zero_min _
      · rw [hnothing]
        exact Nat.min_zero _

/-- After an accrual nothing is left to charge at its time. -/
theorem le_accruedUntil_of_accrue (hcomputed : planned.ComputedAt p rate now)
    (h : p.accrue planned policy = .ok q) : now ≤ q.accruedUntil :=
  (develops_of_accrue hcomputed h).le_accruedUntil

/-! ## Positions that are left as they are -/

/-- Where the position is spent, the accrual of an epoch leaves it as it is too. -/
theorem Spent.keeps_planAccrual (x : p.Spent policy) (hnow : now ≤ p.accruedUntil) :
    p.Keeps planAccrual policy now := by
  intro rate
  obtain ⟨owed, howed, hpaid⟩ := x.owed_eq
  have hdue : interestDue p.liabilities rate (p.elapsed now) = .ok .zero := by
    rw [elapsed_of_le hnow]
    exact interestDue_of_no_time p.liabilities rate
  have hplan := planAccrual_idle hdue howed hpaid
  rw [if_pos hnow] at hplan
  exact ⟨p.still owed, hplan, p.idle_still owed, accrue_still howed⟩

/-- What the accrual of an epoch makes of a position is left as it is by further accruals and by
settlements, also where a part of the interest stayed unpaid. -/
theorem keeps_after_accrual (hplan : p.planAccrual policy rate now = .ok planned)
    (h : p.accrue { planned with paidCustody := worth } policy = .ok q) :
    now ≤ q.accruedUntil ∧ ∀ again ≤ q.accruedUntil,
      q.Keeps planAccrual policy again ∧ q.Keeps planSettlement policy again := by
  have hcomputed := planAccrual_computedAt hplan
  have hvalued : Accrual.ComputedAt { planned with paidCustody := worth } p rate now :=
    ⟨hcomputed.due, hcomputed.upTo⟩
  refine ⟨le_accruedUntil_of_accrue hvalued h, ?_⟩
  intro again hagain
  exact ⟨(spent_of_accrue hplan h).keeps_planAccrual hagain, q.keeps_planSettlement policy hagain⟩

/-- What a settlement makes of it is left as it is by further settlements. An accrual may still pay
what the settlement left unpaid. -/
theorem keeps_after_settlement (hplan : p.planSettlement policy rate now = .ok planned)
    (h : p.accrue planned policy = .ok q) :
    now ≤ q.accruedUntil ∧ ∀ again ≤ q.accruedUntil, q.Keeps planSettlement policy again := by
  refine ⟨le_accruedUntil_of_accrue (planSettlement_computedAt hplan) h, ?_⟩
  intro again hagain
  exact q.keeps_planSettlement policy hagain

end Position

/-! ## What the engine makes of it -/

/-- An accrual of an epoch leaves a spent position. -/
theorem Charge.spent {σ κ : Type} {h : Host σ κ} {k : PositionKey} {block : Block} {e : Engine}
    {s t : σ} (c : Charge h k block e s t) : c.position.Spent e.params.interestPolicy := by
  obtain ⟨planned, worth, charged, hplanned, haccrual, hcharged, hhealth⟩ :=
    planEpoch_steps c.plan_eq
  rw [haccrual] at hcharged
  have hspent := Position.spent_of_accrue hplanned hcharged
  rw [hhealth]
  exact hspent

namespace Engine

variable {σ κ : Type} {h : Host σ κ} {e e' : Engine} {k : PositionKey} {p q : Position}
variable {block : Block} {s t : σ} {now : UInt64} {accrual : Accrual}

/-- Whatever the state of the host, a position is not charged at the time of a block: settling and
judging go by its record, and an accrual of it pays nothing and files its record again, with the
health of the moment, or fails where there is none. -/
structure ChargesNothing (e : Engine) (h : Host σ κ) (k : PositionKey) (p : Position)
    (block : Block) : Prop where
  settles : ∀ s, ∃ accrual, e.chargeUp h p block.time s = .ok (accrual, p) ∧ accrual.Idle
  accrues : ∀ s, ∃ accrual, accrual.Idle ∧
    accruePosition h k block (e, s) = match h.healthOrMax e.params s p with
      | .ok health => (.ok accrual, e.withPosition { p with health }, s)
      | .error fault => (.error fault, e, s)

theorem chargesNothing_of_spent (hfound : e.book.position k = .ok p)
    (hspent : p.Spent e.params.interestPolicy) (hnow : block.time ≤ p.accruedUntil) :
    e.ChargesNothing h k p block where
  settles s := chargeUp_still h e s hnow
  accrues s := by
    obtain ⟨accrual, hplan, hidle, haccrue⟩ :=
      hspent.keeps_planAccrual hnow (h.interestRate s)
    exact ⟨accrual, hidle, accruePosition_of_idle hfound hplan hidle haccrue⟩

/-- The record that an accrual files is not charged again before time has passed, by any engine that
still holds it. -/
theorem chargesNothing_after_accrual
    (haccrue : accruePosition h k block (e, s) = (.ok accrual, e', t)) :
    ∃ q, e'.book.position k = .ok q ∧ block.time ≤ q.accruedUntil ∧
      ∀ (later : Engine) (again : Block), later.params = e'.params →
        later.book.position k = .ok q → again.time ≤ q.accruedUntil →
          later.ChargesNothing h k q again := by
  obtain ⟨c, rfl, rfl⟩ := accruePosition_eq_ok haccrue
  refine ⟨c.position, c.found_after, c.develops.le_accruedUntil, ?_⟩
  intro later again hparams hfound hagain
  have hspent : c.position.Spent later.params.interestPolicy := by
    rw [hparams]
    exact c.spent
  exact chargesNothing_of_spent hfound hspent hagain

/-- **Interest is charged once.** What the accrual of an epoch makes of a position is left as it is
by accruals and settlements at any time up to that accrual's, at any rate and under either policy;
what a settlement makes of it is left as it is by settlements. So an engine that judges, accrues or
settles a position again in the block of its accrual, or with a clock that moved back, charges
nothing and pays nothing. -/
theorem interest_is_charged_once (h : Host σ κ) :
    (∀ (p q : Position) (policy : InterestPolicy) (rate : Decimal) (now : UInt64)
      (planned : Accrual) (worth : Amount), p.planAccrual policy rate now = .ok planned →
        p.accrue { planned with paidCustody := worth } policy = .ok q →
          now ≤ q.accruedUntil ∧ ∀ again ≤ q.accruedUntil,
            q.Keeps Position.planAccrual policy again ∧
              q.Keeps Position.planSettlement policy again) ∧
    (∀ (p q : Position) (policy : InterestPolicy) (rate : Decimal) (now : UInt64)
      (planned : Accrual), p.planSettlement policy rate now = .ok planned →
        p.accrue planned policy = .ok q →
          now ≤ q.accruedUntil ∧ ∀ again ≤ q.accruedUntil,
            q.Keeps Position.planSettlement policy again) ∧
    (∀ (e e' : Engine) (s t : σ) (k : PositionKey) (block : Block) (accrual : Accrual),
      accruePosition h k block (e, s) = (.ok accrual, e', t) →
        ∃ q, e'.book.position k = .ok q ∧ block.time ≤ q.accruedUntil ∧
          ∀ (later : Engine) (again : Block), later.params = e'.params →
            later.book.position k = .ok q → again.time ≤ q.accruedUntil →
              later.ChargesNothing h k q again) := by
  refine ⟨?_, ?_, ?_⟩
  · intro p q policy rate now planned worth hplan haccrue
    exact Position.keeps_after_accrual hplan haccrue
  · intro p q policy rate now planned hplan haccrue
    exact Position.keeps_after_settlement hplan haccrue
  · intro e e' s t k block accrual haccrue
    exact chargesNothing_after_accrual haccrue

end Engine

namespace Sample

/-- The world after Alice topped her position up, where unpaid interest is carried apart. -/
def carrying : Engine × Chain :=
  let w := world
    [.createPool 1 (.tenths 50) true,
     .openPosition opening ⟨1, 0⟩,
     .addCollateral ⟨alice, 1⟩ ⟨.usdc, { units := 90 }⟩]
  ({ w.1 with params := { w.1.params with interestPolicy := .separate } }, w.2)

end Sample

namespace Engine

/-- Of a quarter at a yearly rate of one on 4000 free collateral pays a half, and of ten weeks on
Alice's debt it pays 90. The rest is carried, and asked for again without being charged or paid. -/
theorem carried_interest_is_not_charged_again :
    let p : Position :=
      { Sample.opening.position 1 ⟨1, 0⟩ { units := 4000 } { units := 4884 } with
        freeCollateral := { units := 500 } }
    let k : PositionKey := ⟨Sample.alice, 1⟩
    let block : Block := ⟨2, 6307200⟩
    let charged := accruePosition Chain.host k block Sample.carrying
    (∃ planned q, p.planAccrual .separate .one 7884000 = .ok planned ∧
      p.accrue { planned with paidCustody := { units := 490 } } .separate = .ok q ∧
      q.interestUnpaid.units = 500 ∧ q.interestPaid.units = 500 ∧
      q.Keeps Position.planAccrual .separate 7884000) ∧
    (∃ planned q, p.planSettlement .separate .one 7884000 = .ok planned ∧
      p.accrue planned .separate = .ok q ∧
      q.interestUnpaid.units = 1000 ∧ q.interestPaid.units = 0 ∧
      q.Keeps Position.planSettlement .separate 7884000) ∧
    ∃ accrual q, charged.1 = .ok accrual ∧
      accrual.due.units = 800 ∧ accrual.paid.units = 90 ∧ accrual.unpaid.units = 710 ∧
      charged.2.1.book.position k = .ok q ∧ charged.2.1.ChargesNothing Chain.host k q block := by
  intro p k block charged
  obtain ⟨haccrual, hsettlement, hengine⟩ := interest_is_charged_once Chain.host
  refine ⟨?_, ?_, ?_⟩
  · have hunits : ((p.planAccrual .separate .one 7884000 >>= fun planned =>
        p.accrue { planned with paidCustody := { units := 490 } } .separate).map fun q =>
          (q.interestUnpaid.units, q.interestPaid.units)) = .ok (500, 500) := by
      decide +kernel
    obtain ⟨q, hq, hunits⟩ := except_map_eq_ok.1 hunits
    obtain ⟨planned, hplan, haccrue⟩ := except_bind_eq_ok.1 hq
    obtain ⟨hunpaid, hpaid⟩ := Prod.mk.inj hunits
    obtain ⟨hnow, hkeeps⟩ := haccrual p q _ _ _ planned _ hplan haccrue
    exact ⟨planned, q, hplan, haccrue, hunpaid, hpaid, (hkeeps _ hnow).1⟩
  · have hunits : ((p.planSettlement .separate .one 7884000 >>= fun planned =>
        p.accrue planned .separate).map fun q =>
          (q.interestUnpaid.units, q.interestPaid.units)) = .ok (1000, 0) := by
      decide +kernel
    obtain ⟨q, hq, hunits⟩ := except_map_eq_ok.1 hunits
    obtain ⟨planned, hplan, haccrue⟩ := except_bind_eq_ok.1 hq
    obtain ⟨hunpaid, hpaid⟩ := Prod.mk.inj hunits
    obtain ⟨hnow, hkeeps⟩ := hsettlement p q _ _ _ planned hplan haccrue
    exact ⟨planned, q, hplan, haccrue, hunpaid, hpaid, hkeeps _ hnow⟩
  · have hunits : (charged.1.map fun a => (a.due.units, a.paid.units, a.unpaid.units)) =
        .ok (800, 90, 710) := by
      decide +kernel
    obtain ⟨accrual, hok, hunits⟩ := except_map_eq_ok.1 hunits
    obtain ⟨hdue, hrest⟩ := Prod.mk.inj hunits
    obtain ⟨hpaid, hunpaid⟩ := Prod.mk.inj hrest
    obtain ⟨q, hfound, hnow, hnothing⟩ :=
      hengine Sample.carrying.1 charged.2.1 Sample.carrying.2 charged.2.2 k block accrual
        (eq_of_fst hok)
    exact ⟨accrual, q, hok, hdue, hpaid, hunpaid, hfound, hnothing _ block rfl hfound hnow⟩

end Engine

end LeveragedLp

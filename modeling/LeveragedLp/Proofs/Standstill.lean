import LeveragedLp.Proofs.Development

/-!
# Charging twice at one time

Interest is due for the seconds since the last accrual. At the time of that accrual, or before it if
the clock moved back, there are none, and a settlement finds the position as the accrual left it:
nothing is due, nothing is paid, and under the policy that carries unpaid interest apart what is
carried is asked for and stays unpaid (`Position.keeps_planSettlement`). So a position that was
opened or charged in a block is judged and settled in that block by its own record
(`Engine.chargeUp_still`).
-/

set_option autoImplicit false

namespace LeveragedLp

open EngineM Engine

/-! ## No seconds, no interest -/

theorem interestDue_of_no_time (debt : Amount) (rate : Decimal) :
    interestDue debt rate 0 = .ok .zero := if_pos (.inr (.inl rfl))

/-- An accrual that charges nothing and pays nothing. -/
structure Accrual.Idle (accrual : Accrual) : Prop where
  due : accrual.due = .zero
  paid : accrual.paid = .zero
  paidCustody : accrual.paidCustody = .zero

namespace Position

variable {p q : Position} {policy : InterestPolicy} {rate : Decimal} {now : UInt64}

theorem elapsed_of_le (hnow : now ≤ p.accruedUntil) : p.elapsed now = 0 := if_pos hnow

/-- After an accrual nothing is left to charge at its time. -/
theorem Develops.le_accruedUntil {added paid : Nat}
    (x : p.Develops policy added paid (p.elapsed now).toNat q) : now ≤ q.accruedUntil := by
  have htime := x.time
  have helapsed := p.toNat_elapsed now
  rw [UInt64.le_iff_toNat_le]
  omega

/-- The accrual of a settlement where nothing is due: what is asked for stays unpaid. -/
def still (p : Position) (owed : Amount) : Accrual where
  due := .zero
  owed := owed
  paid := .zero
  paidCustody := .zero
  unpaid := owed
  upTo := p.accruedUntil

theorem idle_still (p : Position) (owed : Amount) : (p.still owed).Idle := ⟨rfl, rfl, rfl⟩

/-- Where nothing is due and nothing of what is asked for can be paid, the accrual of an epoch is
that of a settlement. -/
theorem planAccrual_idle {owed : Amount}
    (hdue : interestDue p.liabilities rate (p.elapsed now) = .ok .zero)
    (howed : p.owed .zero policy = .ok owed) (hpaid : owed.least p.freeCollateral = .zero) :
    p.planAccrual policy rate now = .ok
      { p.still owed with upTo := if now ≤ p.accruedUntil then p.accruedUntil else now } := by
  simp only [planAccrual, hdue, howed, hpaid, Amount.sub_zero, bind, Except.bind, pure, Except.pure]
  rfl

theorem planSettlement_still (hnow : now ≤ p.accruedUntil) {owed : Amount}
    (howed : p.owed .zero policy = .ok owed) :
    p.planSettlement policy rate now = .ok (p.still owed) := by
  have hunpaid := Amount.sub_least_left owed p.freeCollateral "unpaid interest"
  simp only [planSettlement, planAccrual, elapsed_of_le hnow, interestDue_of_no_time, howed,
    hunpaid, hnow, bind, Except.bind, pure, Except.pure, if_true]
  rfl

/-- What was unpaid before is all that can be asked for, and it is carried as before, whatever the
time that it is carried to. -/
theorem accrue_stillTo {owed : Amount} (howed : p.owed .zero policy = .ok owed) (upTo : UInt64) :
    p.accrue { p.still owed with upTo } policy = .ok { p with accruedUntil := upTo } := by
  have hcarry : p.carry owed policy = .ok (p.liabilities, p.interestUnpaid) := by
    cases policy with
    | stacked =>
        cases howed
        simp only [carry, Amount.add_zero, bind, Except.bind, pure, Except.pure]
    | separate =>
        have hsame : p.owed .zero .separate = .ok p.interestUnpaid := Amount.zero_add _ _
        rw [hsame] at howed
        cases howed
        rfl
  simp only [accrue, still, Amount.sub_zero, Amount.add_zero, hcarry, bind, Except.bind, pure,
    Except.pure]

theorem accrue_still {owed : Amount} (howed : p.owed .zero policy = .ok owed) :
    p.accrue (p.still owed) policy = .ok p :=
  accrue_stillTo howed p.accruedUntil

/-- At a time, an accrual of some kind charges a position nothing and leaves its record as it is,
whatever the rate. -/
def Keeps (p : Position)
    (plan : Position → InterestPolicy → Decimal → UInt64 → Except Fault Accrual)
    (policy : InterestPolicy) (now : UInt64) : Prop :=
  ∀ rate, ∃ accrual, plan p policy rate now = .ok accrual ∧ accrual.Idle ∧
    p.accrue accrual policy = .ok p

/-- **A settlement finds a position as the last accrual left it**, at the time of that accrual and
at any earlier one. -/
theorem keeps_planSettlement (p : Position) (policy : InterestPolicy)
    (hnow : now ≤ p.accruedUntil) : p.Keeps planSettlement policy now := by
  intro rate
  have howed : ∃ owed, p.owed .zero policy = .ok owed := by
    cases policy with
    | stacked => exact ⟨.zero, rfl⟩
    | separate => exact ⟨p.interestUnpaid, Amount.zero_add _ _⟩
  obtain ⟨owed, howed⟩ := howed
  exact ⟨p.still owed, planSettlement_still hnow howed, p.idle_still owed, accrue_still howed⟩

end Position

/-! ## What the engine makes of it -/

namespace Engine

variable {σ κ : Type} {p : Position} {now : UInt64}

/-- At the time of its last accrual a position is judged and settled by its own record. -/
theorem chargeUp_still (h : Host σ κ) (e : Engine) (s : σ) (hnow : now ≤ p.accruedUntil) :
    ∃ accrual, e.chargeUp h p now s = .ok (accrual, p) ∧ accrual.Idle := by
  obtain ⟨accrual, hplan, hidle, haccrue⟩ :=
    p.keeps_planSettlement e.params.interestPolicy hnow (h.interestRate s)
  refine ⟨accrual, ?_, hidle⟩
  unfold chargeUp
  rw [hplan]
  show (p.accrue accrual e.params.interestPolicy >>= _) = _
  rw [haccrue]
  rfl

/-- An epoch's accrual that moves nothing fails only if the position has no health. -/
theorem planEpoch_of_idle {h : Host σ κ} {e : Engine} {s : σ} {q : Position} {accrual : Accrual}
    (hplan : p.planAccrual e.params.interestPolicy (h.interestRate s) now = .ok accrual)
    (hidle : accrual.Idle) (haccrue : p.accrue accrual e.params.interestPolicy = .ok q) :
    e.planEpoch h p now s = (h.healthOrMax e.params s q).map fun health =>
      (accrual, { q with health }) := by
  have hworth : paidWorth h p accrual s = .ok accrual.paidCustody := by
    unfold paidWorth
    rw [hidle.paid]
    rfl
  unfold planEpoch
  rw [hplan]
  show (paidWorth h p accrual s >>= _) = _
  rw [hworth]
  show (p.accrue accrual e.params.interestPolicy >>= _) = _
  rw [haccrue]
  show (h.healthOrMax e.params s q >>= _) = _
  cases h.healthOrMax e.params s q with
  | error _ => rfl
  | ok health => rfl

/-- It calls nobody, and all that it files anew is the health and the time. -/
theorem accruePosition_of_idle {h : Host σ κ} {e : Engine} {s : σ} {q : Position}
    {accrual : Accrual} {k : PositionKey} {block : Block} (hfound : e.book.position k = .ok p)
    (hplan : p.planAccrual e.params.interestPolicy (h.interestRate s) block.time = .ok accrual)
    (hidle : accrual.Idle) (haccrue : p.accrue accrual e.params.interestPolicy = .ok q) :
    accruePosition h k block (e, s) = match h.healthOrMax e.params s q with
      | .ok health => (.ok accrual, e.withPosition { q with health }, s)
      | .error fault => (.error fault, e, s) := by
  have hepoch := planEpoch_of_idle hplan hidle haccrue
  simp only [accruePosition, HostM.bind_apply, asking_apply, hfound, hepoch]
  cases h.healthOrMax e.params s q with
  | error _ => rfl
  | ok health =>
      simp only [Except.map, onHost_apply, payInterest, hidle.paid]
      rfl

end Engine

end LeveragedLp

import LeveragedLp.Proofs.Effects

/-!
# How a position develops

While a position is open its record changes in three ways only: it is topped up, it is charged
interest, and its health is found anew. `Position.Develops` says what such changes add up to: the
terms of the opening stay (`Position.terms`), and so does what was borrowed (`Position.principal`),
in which the two policies differ; free collateral and interest paid tell what was added and what
was paid, and the time up to which interest is charged moves on by the seconds that were charged.

An accrual is computed on the seconds since the last one, of which there are none if the clock moved
back (`Accrual.ComputedAt`); so it moves the time on to the later of the two.
-/

set_option autoImplicit false

namespace LeveragedLp

open Engine

/-! ## The seconds of an accrual -/

/-- An accrual of a position is for the seconds that were not charged yet at a time, at a rate. -/
structure Accrual.ComputedAt (accrual : Accrual) (p : Position) (rate : Decimal) (now : UInt64) :
    Prop where
  due : interestDue p.liabilities rate (p.elapsed now) = .ok accrual.due
  upTo : accrual.upTo.toNat = p.accruedUntil.toNat + (p.elapsed now).toNat

namespace Position

variable {p q r : Position} {policy : InterestPolicy} {now : UInt64} {rate : Decimal}
variable {accrual : Accrual}

theorem toNat_elapsed (p : Position) (now : UInt64) :
    (p.elapsed now).toNat = now.toNat - p.accruedUntil.toNat := by
  unfold elapsed
  split
  · next hle =>
    rw [UInt64.le_iff_toNat_le] at hle
    show 0 = _
    omega
  · next hlt =>
    have hle : p.accruedUntil ≤ now := UInt64.le_of_lt (UInt64.not_le.1 hlt)
    exact UInt64.toNat_sub_of_le _ _ hle

theorem planAccrual_computedAt (h : p.planAccrual policy rate now = .ok accrual) :
    accrual.ComputedAt p rate now := by
  obtain ⟨hdue, -, -, -, hupTo⟩ := planAccrual_amounts h
  refine ⟨hdue, ?_⟩
  rw [hupTo, toNat_elapsed]
  split
  · next hle =>
    rw [UInt64.le_iff_toNat_le] at hle
    omega
  · next hlt =>
    rw [UInt64.le_iff_toNat_le] at hlt
    omega

theorem planSettlement_computedAt (h : p.planSettlement policy rate now = .ok accrual) :
    accrual.ComputedAt p rate now := by
  obtain ⟨planned, hplanned, h⟩ := except_bind_eq_ok.1 h
  cases h
  have hcomputed := planAccrual_computedAt hplanned
  exact ⟨hcomputed.due, hcomputed.upTo⟩

/-! ## Development -/

/-- What the opening of a position settles: its record but for health and accounts. -/
def terms (p : Position) : Position :=
  { p with
    health := .zero
    freeCollateral := .zero
    liabilities := .zero
    interestPaid := .zero
    interestPaidCustody := .zero
    interestUnpaid := .zero
    accruedUntil := 0 }

/-- The liabilities of a position without the interest in them. Stacked interest joins the
liabilities, and interest that is carried apart never does. -/
def principal (p : Position) : InterestPolicy → Int
  | .stacked => p.liabilities.units - p.interestUnpaid.units
  | .separate => p.liabilities.units

/-- Two records of a position, between which so many units were added to its collateral, and it was
charged interest for so many seconds and paid so many units of it. -/
structure Develops (p : Position) (policy : InterestPolicy) (added paid seconds : Nat)
    (q : Position) : Prop where
  terms : q.terms = p.terms
  principal : q.principal policy = p.principal policy
  free : q.freeCollateral.units + q.interestPaid.units =
    p.freeCollateral.units + p.interestPaid.units + added
  paid : q.interestPaid.units = p.interestPaid.units + paid
  time : q.accruedUntil.toNat = p.accruedUntil.toNat + seconds

namespace Develops

variable {added added' paid paid' seconds seconds' : Nat}

theorem refl (p : Position) (policy : InterestPolicy) : p.Develops policy 0 0 0 p :=
  ⟨rfl, rfl, rfl, rfl, rfl⟩

theorem trans (x : p.Develops policy added paid seconds q)
    (y : q.Develops policy added' paid' seconds' r) :
    p.Develops policy (added + added') (paid + paid') (seconds + seconds') r where
  terms := y.terms.trans x.terms
  principal := y.principal.trans x.principal
  free := by rw [y.free, x.free, Nat.add_assoc]
  paid := by rw [y.paid, x.paid, Nat.add_assoc]
  time := by rw [y.time, x.time, Nat.add_assoc]

/-- The health does not matter. -/
theorem withHealth (x : p.Develops policy added paid seconds q) (health : Decimal) :
    p.Develops policy added paid seconds { q with health } :=
  ⟨x.terms, x.principal, x.free, x.paid, x.time⟩

/-- A position keeps its key. -/
theorem key_eq (x : p.Develops policy added paid seconds q) : q.key = p.key := by
  show q.terms.key = p.terms.key
  rw [x.terms]

theorem openedAt_eq (x : p.Develops policy added paid seconds q) : q.openedAt = p.openedAt := by
  show q.terms.openedAt = p.terms.openedAt
  rw [x.terms]

theorem accruedUntil_le (x : p.Develops policy added paid seconds q) :
    p.accruedUntil ≤ q.accruedUntil := by
  rw [UInt64.le_iff_toNat_le, x.time]
  exact Nat.le_add_right _ _

end Develops

/-- An accrual pays out of the free collateral and charges the seconds that it is computed on. What
stays unpaid does not touch what was borrowed. -/
theorem develops_of_accrue (hcomputed : accrual.ComputedAt p rate now)
    (h : p.accrue accrual policy = .ok q) :
    p.Develops policy 0 accrual.paid.units (p.elapsed now).toNat q := by
  obtain ⟨hrecord, hfree, hpaid, hcarry⟩ := accrue_eq_ok h
  have hterms : q.terms = p.terms := by
    rw [hrecord]
    rfl
  have hupTo : q.accruedUntil = accrual.upTo := by rw [hrecord]
  refine ⟨hterms, ?_, ?_, hpaid, ?_⟩
  · cases policy with
    | stacked =>
        -- the same amount joins the liabilities and the unpaid interest
        obtain ⟨hliabilities, hunpaid⟩ := carry_stacked_eq_ok hcarry
        simp only [principal]
        omega
    | separate =>
        simp only [principal, (carry_separate_eq_ok hcarry).1]
  · omega
  · rw [hupTo]
    exact hcomputed.upTo

end Position

/-! ## What the steps do -/

namespace Engine

variable {σ κ : Type} {h : Host σ κ} {e : Engine} {p q : Position} {now : UInt64} {s : σ}
variable {accrual : Accrual}

theorem planEpoch_develops (hplan : e.planEpoch h p now s = .ok (accrual, q)) :
    accrual.ComputedAt p (h.interestRate s) now ∧
      p.Develops e.params.interestPolicy 0 accrual.paid.units (p.elapsed now).toNat q := by
  obtain ⟨planned, worth, charged, hplanned, rfl, hcharged, hhealth⟩ := planEpoch_steps hplan
  have hcomputed := Position.planAccrual_computedAt hplanned
  have hvalued :
      Accrual.ComputedAt { planned with paidCustody := worth } p (h.interestRate s) now :=
    ⟨hcomputed.due, hcomputed.upTo⟩
  rw [hhealth]
  exact ⟨hvalued, (Position.develops_of_accrue hvalued hcharged).withHealth q.health⟩

theorem chargeUp_develops (hcharge : e.chargeUp h p now s = .ok (accrual, q)) :
    accrual.ComputedAt p (h.interestRate s) now ∧
      p.Develops e.params.interestPolicy 0 0 (p.elapsed now).toNat q := by
  have hpaid := (chargeUp_eq_ok hcharge).2
  obtain ⟨planned, hplanned, hcharge⟩ := except_bind_eq_ok.1 hcharge
  obtain ⟨charged, hcharged, hcharge⟩ := except_bind_eq_ok.1 hcharge
  cases hcharge
  have hcomputed := Position.planSettlement_computedAt hplanned
  have hdevelops := Position.develops_of_accrue hcomputed hcharged
  rw [hpaid] at hdevelops
  exact ⟨hcomputed, hdevelops⟩

end Engine

section

variable {σ κ : Type} {h : Host σ κ} {e : Engine} {s t : σ} {k : PositionKey} {block : Block}

theorem TopUp.develops {coin : Coin} (o : TopUp h k coin e s t) :
    o.before.Develops e.params.interestPolicy coin.amount.units 0 0 o.position := by
  have hfree := (topUp_eq_ok o.topUp_eq).2
  rw [o.position_eq]
  refine ⟨rfl, ?_, ?_, rfl, rfl⟩
  · cases e.params.interestPolicy with
    | stacked => rfl
    | separate => rfl
  · show o.raised.freeCollateral.units + o.before.interestPaid.units = _
    omega

theorem Charge.develops (o : Charge h k block e s t) :
    o.before.Develops e.params.interestPolicy 0 o.accrual.paid.units
      (o.before.elapsed block.time).toNat o.position := (planEpoch_develops o.plan_eq).2

/-- A settlement charges the seconds that are left, and the record of the close tells so. -/
theorem Closing.develops {p : Position} {reason : CloseReason}
    (o : Closing h p reason block e s t) :
    p.Develops e.params.interestPolicy 0 0 (p.elapsed block.time).toNat o.position :=
  (chargeUp_develops o.charge_eq).2.withHealth o.health

end

end LeveragedLp

import LeveragedLp.Engine.Operation
import LeveragedLp.Proofs.Sums

/-!
# What a success did

Four things change the funds on the book: opening a position, topping one up, charging one its
interest, and settling one. For each of them a structure lists the steps of a success, with the
amounts that were found on the way and the states of the host in between (`Opening`, `TopUp`,
`Charge`, `Closing`), and gives the engine after it. The theorems `..._eq_ok` say that a
computation succeeds with these steps only; what a success means is then read off the structure,
and no later proof opens the computation again.
-/

set_option autoImplicit false

namespace LeveragedLp

open EngineM Engine

/-! ## What the operations of a pool do -/

namespace Pool

theorem register_eq_ok {p q : Pool} {shares : Amount} (h : p.register shares = .ok q) :
    p.accepting = .ok () ∧ q = { p with leveraged := q.leveraged } ∧
      q.leveraged.units = p.leveraged.units + shares.units := by
  obtain ⟨_, haccepting, h⟩ := except_bind_eq_ok.1 h
  obtain ⟨leveraged, hsum, h⟩ := except_bind_eq_ok.1 h
  cases h
  exact ⟨haccepting, rfl, Amount.add_eq_ok.1 hsum⟩

theorem release_eq_ok {p q : Pool} {shares : Amount} (h : p.release shares = .ok q) :
    q = { p with leveraged := q.leveraged } ∧
      p.leveraged.units = q.leveraged.units + shares.units := by
  obtain ⟨leveraged, hdifference, h⟩ := except_bind_eq_ok.1 h
  cases h
  exact ⟨rfl, Amount.sub?_eq_some_iff.1 (orFault_eq_ok.1 hdifference)⟩

theorem refresh_eq_ok {p q : Pool} {total : Amount} (h : p.refresh total = .ok q) :
    q = { p with health := q.health } ∧ p.freePart total = .ok q.health := by
  obtain ⟨health, hpart, h⟩ := except_bind_eq_ok.1 h
  cases h
  exact ⟨rfl, hpart⟩

end Pool

theorem Book.pool_eq_ok {b : Book} {id : UInt64} {pool : Pool} :
    b.pool id = .ok pool ↔ b.pools.get? id = some pool := orFault_eq_ok

theorem Book.position_eq_ok {b : Book} {k : PositionKey} {p : Position} :
    b.position k = .ok p ↔ b.positions.get? k = some p := orFault_eq_ok

/-- A position is found under its own key. -/
theorem Book.key_of_position {b : Book} {k : PositionKey} {p : Position}
    (h : b.position k = .ok p) : p.key = k :=
  Registry.key_of_get? (position_eq_ok.1 h)

theorem Book.isSome_of_position {b : Book} {k : PositionKey} {p : Position}
    (h : b.position k = .ok p) : (b.position? k).isSome :=
  Option.isSome_of_eq_some (position_eq_ok.1 h)

theorem Book.isSome_of_pool {b : Book} {id : UInt64} {pool : Pool} (h : b.pool id = .ok pool) :
    (b.pool? id).isSome :=
  Option.isSome_of_eq_some (pool_eq_ok.1 h)

/-! ## What charging interest does to a position -/

namespace Position

/-- The units of the debt under a policy, whether or not there is an amount of so many. -/
def debtUnits (p : Position) : InterestPolicy → Nat
  | .stacked => p.liabilities.units
  | .separate => p.liabilities.units + p.interestUnpaid.units

theorem debt_eq_ok {p : Position} {policy : InterestPolicy} {debt : Amount} :
    p.debt policy = .ok debt ↔ debt.units = p.debtUnits policy := by
  cases policy with
  | stacked =>
      constructor
      · intro h
        cases h
        rfl
      · intro h
        exact congrArg Except.ok (Amount.ext h.symm)
  | separate => exact Amount.add_eq_ok

/-- The same position with other accounts: owner, number, pool and assets are those of the
opening, and so are the shares in custody. -/
structure Continues (p q : Position) : Prop where
  key : q.key = p.key
  pool : q.pool = p.pool
  custody : q.custody = p.custody
  borrowAsset : q.borrowAsset = p.borrowAsset

/-- A later record of a position is filed in the place of the earlier. -/
theorem Continues.get?_key {p q : Position} {b : Book} {k : PositionKey} (hq : p.Continues q)
    (hfound : b.position k = .ok p) : b.positions.get? q.key = some p := by
  have hget := Book.position_eq_ok.1 hfound
  rw [hq.key]
  exact Registry.get?_key (Registry.mem_toList_of_get? hget)

/-- A position before and after an accrual: what is paid comes out of the free collateral, and
what is due joins the debt unless it is paid. -/
structure Charged (p : Position) (policy : InterestPolicy) (accrual : Accrual) (q : Position) : Prop
    extends p.Continues q where
  free : p.freeCollateral.units = q.freeCollateral.units + accrual.paid.units
  debt : p.debtUnits policy + accrual.due.units = accrual.paid.units + q.debtUnits policy

/-- A plan asks for what is due, and under the separate policy for what was unpaid before; all of
it is either paid or stays unpaid. -/
structure Planned (p : Position) (policy : InterestPolicy) (accrual : Accrual) : Prop where
  owed : p.owed accrual.due policy = .ok accrual.owed
  split : accrual.owed.units = accrual.paid.units + accrual.unpaid.units

/-- The amounts of an epoch's accrual, each found from the one before. -/
theorem planAccrual_amounts {p : Position} {policy : InterestPolicy} {rate : Decimal}
    {now : UInt64} {accrual : Accrual} (h : p.planAccrual policy rate now = .ok accrual) :
    interestDue p.liabilities rate (p.elapsed now) = .ok accrual.due ∧
      p.owed accrual.due policy = .ok accrual.owed ∧
      accrual.paid = accrual.owed.least p.freeCollateral ∧
      accrual.owed.units = accrual.unpaid.units + accrual.paid.units ∧
      accrual.upTo = if now ≤ p.accruedUntil then p.accruedUntil else now := by
  obtain ⟨due, hdue, h⟩ := except_bind_eq_ok.1 h
  obtain ⟨owed, howed, h⟩ := except_bind_eq_ok.1 h
  obtain ⟨unpaid, hunpaid, h⟩ := except_bind_eq_ok.1 h
  cases h
  exact ⟨hdue, howed, rfl, Amount.sub_eq_ok.1 hunpaid, rfl⟩

theorem planAccrual_eq_ok {p : Position} {policy : InterestPolicy} {rate : Decimal} {now : UInt64}
    {accrual : Accrual} (h : p.planAccrual policy rate now = .ok accrual) :
    p.Planned policy accrual := by
  obtain ⟨-, howed, -, hsplit, -⟩ := planAccrual_amounts h
  exact ⟨howed, hsplit.trans (Nat.add_comm _ _)⟩

theorem planSettlement_eq_ok {p : Position} {policy : InterestPolicy} {rate : Decimal}
    {now : UInt64} {accrual : Accrual} (h : p.planSettlement policy rate now = .ok accrual) :
    p.Planned policy accrual ∧ accrual.paid = .zero := by
  obtain ⟨planned, hplanned, h⟩ := except_bind_eq_ok.1 h
  cases h
  exact ⟨⟨(planAccrual_eq_ok hplanned).owed, (Nat.zero_add _).symm⟩, rfl⟩

/-- What an accrual writes into a position: accounts and time, of which the paid interest comes out
of the free collateral. -/
structure Accrued (p : Position) (policy : InterestPolicy) (accrual : Accrual) (q : Position) :
    Prop where
  record : q = { p with
    freeCollateral := q.freeCollateral
    interestPaid := q.interestPaid
    interestPaidCustody := q.interestPaidCustody
    liabilities := q.liabilities
    interestUnpaid := q.interestUnpaid
    accruedUntil := accrual.upTo }
  free : p.freeCollateral.units = q.freeCollateral.units + accrual.paid.units
  paid : q.interestPaid.units = p.interestPaid.units + accrual.paid.units
  carry : p.carry accrual.unpaid policy = .ok (q.liabilities, q.interestUnpaid)

theorem accrue_eq_ok {p q : Position} {policy : InterestPolicy} {accrual : Accrual}
    (h : p.accrue accrual policy = .ok q) : p.Accrued policy accrual q := by
  obtain ⟨free, hfree, h⟩ := except_bind_eq_ok.1 h
  obtain ⟨paid, hpaid, h⟩ := except_bind_eq_ok.1 h
  obtain ⟨paidCustody, -, h⟩ := except_bind_eq_ok.1 h
  obtain ⟨⟨liabilities, unpaid⟩, hcarry, h⟩ := except_bind_eq_ok.1 h
  cases h
  exact ⟨rfl, Amount.sub_eq_ok.1 hfree, Amount.add_eq_ok.1 hpaid, hcarry⟩

/-- Stacked interest joins the liabilities and the unpaid interest. -/
theorem carry_stacked_eq_ok {p : Position} {unpaid liabilities interestUnpaid : Amount}
    (h : p.carry unpaid .stacked = .ok (liabilities, interestUnpaid)) :
    liabilities.units = p.liabilities.units + unpaid.units ∧
      interestUnpaid.units = p.interestUnpaid.units + unpaid.units := by
  obtain ⟨sum, hsum, h⟩ := except_bind_eq_ok.1 h
  obtain ⟨carried, hcarried, h⟩ := except_bind_eq_ok.1 h
  cases h
  exact ⟨Amount.add_eq_ok.1 hsum, Amount.add_eq_ok.1 hcarried⟩

/-- Interest that is carried apart takes the place of what was carried. -/
theorem carry_separate_eq_ok {p : Position} {unpaid liabilities interestUnpaid : Amount}
    (h : p.carry unpaid .separate = .ok (liabilities, interestUnpaid)) :
    liabilities = p.liabilities ∧ interestUnpaid = unpaid := by
  cases h
  exact ⟨rfl, rfl⟩

/-- The two policies put what stays unpaid in different places, and the debt grows alike. -/
theorem charged_of_accrue {p q : Position} {policy : InterestPolicy} {accrual : Accrual}
    (hplanned : p.Planned policy accrual) (h : p.accrue accrual policy = .ok q) :
    p.Charged policy accrual q := by
  obtain ⟨hrecord, hfree, -, hcarry⟩ := accrue_eq_ok h
  have hcontinues : p.Continues q := by
    rw [hrecord]
    exact ⟨rfl, rfl, rfl, rfl⟩
  refine ⟨hcontinues, hfree, ?_⟩
  obtain ⟨howed, hsplit⟩ := hplanned
  cases policy with
  | stacked =>
      -- only what is due is asked for, and the unpaid rest of it joins the liabilities
      have howed : accrual.due = accrual.owed := Except.ok.inj howed
      have hliabilities := (carry_stacked_eq_ok hcarry).1
      rw [← howed] at hsplit
      simp only [debtUnits]
      omega
  | separate =>
      -- what was unpaid before is asked for again, and the rest of both takes its place
      obtain ⟨hliabilities, hunpaid⟩ := carry_separate_eq_ok hcarry
      have howed := Amount.add_eq_ok.1 howed
      simp only [debtUnits, hliabilities, hunpaid]
      omega

end Position

namespace Engine

variable {σ κ : Type} {h : Host σ κ} {e : Engine} {p q : Position} {now : UInt64} {s : σ}
variable {accrual : Accrual}

/-- An epoch's accrual is planned, what it pays is valued, and it is written into the position. -/
theorem planEpoch_steps (hplan : e.planEpoch h p now s = .ok (accrual, q)) :
    ∃ planned worth charged,
      p.planAccrual e.params.interestPolicy (h.interestRate s) now = .ok planned ∧
        accrual = { planned with paidCustody := worth } ∧
        p.accrue accrual e.params.interestPolicy = .ok charged ∧
        q = { charged with health := q.health } := by
  obtain ⟨planned, hplanned, hplan⟩ := except_bind_eq_ok.1 hplan
  obtain ⟨worth, -, hplan⟩ := except_bind_eq_ok.1 hplan
  obtain ⟨charged, hcharged, hplan⟩ := except_bind_eq_ok.1 hplan
  obtain ⟨health, -, hplan⟩ := except_bind_eq_ok.1 hplan
  cases hplan
  exact ⟨planned, worth, charged, hplanned, rfl, hcharged, rfl⟩

theorem planEpoch_eq_ok (hplan : e.planEpoch h p now s = .ok (accrual, q)) :
    p.Charged e.params.interestPolicy accrual q := by
  obtain ⟨planned, worth, charged, hplanned, rfl, hcharged, hhealth⟩ := planEpoch_steps hplan
  obtain ⟨howed, hsplit⟩ := Position.planAccrual_eq_ok hplanned
  have hvalued : p.Planned e.params.interestPolicy { planned with paidCustody := worth } :=
    ⟨howed, hsplit⟩
  have hcharge := Position.charged_of_accrue hvalued hcharged
  rw [hhealth]
  exact ⟨⟨hcharge.key, hcharge.pool, hcharge.custody, hcharge.borrowAsset⟩, hcharge.free,
    hcharge.debt⟩

theorem chargeUp_eq_ok (hcharge : e.chargeUp h p now s = .ok (accrual, q)) :
    p.Charged e.params.interestPolicy accrual q ∧ accrual.paid = .zero := by
  obtain ⟨planned, hplanned, hcharge⟩ := except_bind_eq_ok.1 hcharge
  obtain ⟨charged, hcharged, hcharge⟩ := except_bind_eq_ok.1 hcharge
  cases hcharge
  obtain ⟨hplan, hpaid⟩ := Position.planSettlement_eq_ok hplanned
  exact ⟨Position.charged_of_accrue hplan hcharged, hpaid⟩

theorem checkTopUp_eq_ok {coin : Coin} (hcheck : checkTopUp p coin = .ok ()) :
    coin.denom = p.borrowAsset ∧ ¬ coin.amount.isZero := by
  unfold checkTopUp at hcheck
  split at hcheck
  · cases hcheck
  · next hdenom =>
    split at hcheck
    · cases hcheck
    · next hzero => exact ⟨not_not.1 hdenom, hzero⟩

/-- A top-up adds to the free collateral and to nothing else. -/
theorem topUp_eq_ok {amount : Amount} (htopUp : topUp p amount = .ok q) :
    q = { p with freeCollateral := q.freeCollateral } ∧
      q.freeCollateral.units = p.freeCollateral.units + amount.units := by
  obtain ⟨free, hfree, htopUp⟩ := except_bind_eq_ok.1 htopUp
  cases htopUp
  exact ⟨rfl, Amount.add_eq_ok.1 hfree⟩

end Engine

/-! ## Opening -/

/-- A request that is not refused. -/
structure Engine.Admits {σ κ : Type} (e : Engine) (h : Host σ κ) (r : OpenRequest) (s : σ) :
    Prop where
  collateral : ¬ r.collateral.amount.isZero
  direction : r.direction = .long
  pool : ∃ pool, e.book.pool r.pool = .ok pool ∧ pool.admits r.leverage = .ok ()
  borrowAsset : r.borrowAsset = h.lendingDenom s
  room : e.book.positions.size < e.params.maxOpenPositions.toNat
  takeProfit : e.checkTakeProfit h r s = .ok ()

theorem checkRequest_eq_ok {σ κ : Type} {h : Host σ κ} {e : Engine} {r : OpenRequest} {s : σ}
    (hcheck : e.checkRequest h r s = .ok ()) : e.Admits h r s := by
  unfold checkRequest at hcheck
  obtain ⟨hcollateral, hcheck⟩ := refuse_bind_eq_ok.1 hcheck
  obtain ⟨hdirection, hcheck⟩ := refuse_bind_eq_ok.1 hcheck
  obtain ⟨pool, hpool, hcheck⟩ := except_bind_eq_ok.1 hcheck
  obtain ⟨_, hadmits, hcheck⟩ := except_bind_eq_ok.1 hcheck
  obtain ⟨hasset, hcheck⟩ := refuse_bind_eq_ok.1 hcheck
  obtain ⟨hroom, hcheck⟩ := refuse_bind_eq_ok.1 hcheck
  exact ⟨hcollateral, not_not.1 hdirection, ⟨pool, hpool, hadmits⟩,
    not_not.1 hasset, Nat.lt_of_not_le hroom, hcheck⟩

/-- The steps of a successful opening, from the engine `e` and the host in state `s` to the host
in state `t`. -/
structure Opening {σ κ : Type} (h : Host σ κ) (r : OpenRequest) (block : Block) (e : Engine)
    (s t : σ) where
  worth : Amount
  liabilities : Amount
  custody : Amount
  health : Decimal
  total : Amount
  tracked : Pool
  registered : Pool
  pool : Pool
  collected : σ
  levered : σ
  check_eq : e.checkRequest h r (h.checkpoint s).2 = .ok ()
  collect_eq : r.collect h (h.checkpoint s).2 = (.ok worth, collected)
  lever_eq : r.lever h worth collected = (.ok liabilities, levered)
  join_eq : r.join h worth liabilities levered = (.ok custody, t)
  appraise_eq :
    e.appraiseNew h (r.position e.book.nextId block liabilities custody) t = .ok health
  shares_eq : h.sharesOf r.pool t = .ok total
  tracked_eq : e.book.pool r.pool = .ok tracked
  register_eq : tracked.register custody = .ok registered
  refresh_eq : registered.refresh total = .ok pool
  threshold_le : ¬ pool.health < e.params.poolOpenThreshold

namespace Opening

variable {σ κ : Type} {h : Host σ κ} {r : OpenRequest} {block : Block} {e : Engine} {s t : σ}
variable (o : Opening h r block e s t)

/-- The new position. -/
def position : Position :=
  { r.position e.book.nextId block o.liabilities o.custody with health := o.health }

/-- The engine with the new position. -/
def after : Engine where
  params := e.params
  book := { e.book with
    nextId := e.book.nextId + 1
    pools := e.book.pools.insert o.pool
    positions := e.book.positions.insert o.position }
  events := e.events ++ [.opened (o.position.summary .zero)]

def response : Response where
  positionId := e.book.nextId
  finalCollateral := r.collateral.amount
  liabilities := o.liabilities
  health := o.health
  interestPaid := .zero
  repayAmount := .zero

/-- Exposure and health are all that is new of the pool. -/
theorem pool_eq :
    o.pool = { o.tracked with leveraged := o.pool.leveraged, health := o.pool.health } := by
  have hrefreshed := (Pool.refresh_eq_ok o.refresh_eq).1
  rw [(Pool.register_eq_ok o.register_eq).2.1] at hrefreshed
  rw [hrefreshed]

theorem pool_id : o.pool.id = r.pool := by
  rw [o.pool_eq]
  exact Registry.key_of_get? (Book.pool_eq_ok.1 o.tracked_eq)

/-- The shares of the position are added to the exposure. -/
theorem leveraged_eq :
    o.pool.leveraged.units = o.tracked.leveraged.units + o.custody.units := by
  rw [(Pool.refresh_eq_ok o.refresh_eq).1]
  exact (Pool.register_eq_ok o.register_eq).2.2

end Opening

/-! ## Topping up -/

/-- The steps of a successful top-up. -/
structure TopUp {σ κ : Type} (h : Host σ κ) (k : PositionKey) (coin : Coin) (e : Engine)
    (s t : σ) where
  before : Position
  raised : Position
  health : Decimal
  found_eq : e.book.position k = .ok before
  check_eq : checkTopUp before coin = .ok ()
  send_eq : h.send k.owner .engine coin (h.checkpoint s).2 = (.ok (), t)
  topUp_eq : topUp before coin.amount = .ok raised
  health_eq : h.healthOrMax e.params t raised = .ok health

namespace TopUp

variable {σ κ : Type} {h : Host σ κ} {k : PositionKey} {coin : Coin} {e : Engine} {s t : σ}
variable (o : TopUp h k coin e s t)

/-- The position after the top-up. -/
def position : Position := { o.raised with health := o.health }

/-- The engine after the top-up. -/
def after : Engine :=
  { e with
    book := e.book.put o.position
    events := e.events ++ [.collateralAdded (o.position.summary .zero) coin.amount] }

/-- Only free collateral and health are new. -/
theorem position_eq : o.position =
    { o.before with freeCollateral := o.raised.freeCollateral, health := o.health } := by
  unfold position
  rw [(topUp_eq_ok o.topUp_eq).1]

theorem continues : o.before.Continues o.position := by
  rw [o.position_eq]
  exact ⟨rfl, rfl, rfl, rfl⟩

theorem key_eq : o.position.key = k := o.continues.key.trans (Book.key_of_position o.found_eq)

end TopUp

/-! ## Charging interest -/

/-- The steps of a successful accrual on one position. -/
structure Charge {σ κ : Type} (h : Host σ κ) (k : PositionKey) (block : Block) (e : Engine)
    (s t : σ) where
  before : Position
  accrual : Accrual
  position : Position
  found_eq : e.book.position k = .ok before
  plan_eq : e.planEpoch h before block.time s = .ok (accrual, position)
  pay_eq : payInterest h accrual.paid s = (.ok (), t)

/-- The engine with the charged position. -/
def Charge.after {σ κ : Type} {h : Host σ κ} {k : PositionKey} {block : Block} {e : Engine}
    {s t : σ} (o : Charge h k block e s t) : Engine :=
  e.withPosition o.position

theorem Charge.key_eq {σ κ : Type} {h : Host σ κ} {k : PositionKey} {block : Block} {e : Engine}
    {s t : σ} (o : Charge h k block e s t) : o.position.key = k :=
  (planEpoch_eq_ok o.plan_eq).key.trans (Book.key_of_position o.found_eq)

/-! ## Settling -/

/-- Whether an event tells of a close. -/
def Event.isClose : Event → Bool
  | closed _ _ => true
  | forceClosed _ _ => true
  | _ => false

namespace Settlement

/-- What is told of a settlement: of the loss, if there was one, and of the close. -/
def events (t : Settlement) : List Event := t.position.lossEvents t.shortfall ++ [t.event]

/-- There is one close among it. -/
theorem events_filter_isClose (t : Settlement) : t.events.filter Event.isClose = [t.event] := by
  have hloss : (t.position.lossEvents t.shortfall).filter Event.isClose = [] := by
    unfold Position.lossEvents
    split
    · rfl
    · rfl
  have hclose : t.event.isClose = true := by
    unfold Settlement.event Event.ofClose
    cases t.reason <;> rfl
  rw [events, List.filter_append, hloss, List.filter_singleton, hclose]
  rfl

end Settlement

/-- The steps of paying a position's funds out: debt, write-off, owner. -/
structure Distribution {σ κ : Type} (h : Host σ κ) (p : Position) (policy : InterestPolicy)
    (s t : σ) where
  debt : Amount
  proceeds : Amount
  funds : Amount
  shortfall : Amount
  payout : Amount
  redeemed : σ
  repaid : σ
  forgiven : σ
  debt_eq : p.debt policy = .ok debt
  redeem_eq : p.redeem h s = (.ok proceeds, redeemed)
  funds_eq : proceeds.add p.freeCollateral "settlement funds" = .ok funds
  repay_eq : Position.repay h (debt.least funds) redeemed = (.ok (), repaid)
  shortfall_eq : debt.sub (debt.least funds) "shortfall" = .ok shortfall
  forgive_eq : p.forgive h shortfall repaid = (.ok (), forgiven)
  payout_eq : funds.sub (debt.least funds) "owner remainder" = .ok payout
  payOut_eq : p.payOut h payout forgiven = (.ok (), t)

/-- The amounts of the settlement. -/
def Distribution.settlement {σ κ : Type} {h : Host σ κ} {p : Position} {policy : InterestPolicy}
    {s t : σ} (d : Distribution h p policy s t) (reason : CloseReason) (accrual : Accrual) :
    Settlement where
  position := p
  reason := reason
  accrual := accrual
  debt := d.debt
  proceeds := d.proceeds
  repaid := d.debt.least d.funds
  shortfall := d.shortfall
  payout := d.payout

/-- The steps of a successful settlement. -/
structure Closing {σ κ : Type} (h : Host σ κ) (p : Position) (reason : CloseReason)
    (block : Block) (e : Engine) (s t : σ) where
  accrual : Accrual
  charged : Position
  health : Decimal
  total : Amount
  tracked : Pool
  released : Pool
  pool : Pool
  charge_eq : e.chargeUp h p block.time s = .ok (accrual, charged)
  health_eq : e.closingHealth h charged reason s = .ok health
  paid : Distribution h { charged with health } e.params.interestPolicy s t
  shares_eq : h.sharesOf charged.pool t = .ok total
  tracked_eq : e.book.pool charged.pool = .ok tracked
  release_eq : tracked.release charged.custody.amount = .ok released
  refresh_eq : released.refresh total = .ok pool

namespace Closing

variable {σ κ : Type} {h : Host σ κ} {p : Position} {reason : CloseReason} {block : Block}
variable {e : Engine} {s t : σ} (o : Closing h p reason block e s t)

/-- The position as it was closed. -/
def position : Position := { o.charged with health := o.health }

/-- The amounts of the settlement. -/
def settlement : Settlement := o.paid.settlement reason o.accrual

/-- The engine without the position. -/
def after : Engine :=
  { e with
    book := (e.book.putPool o.pool).remove o.position.key
    events := e.events ++ o.position.lossEvents o.paid.shortfall ++ [o.settlement.event] }

/-- The position is closed under the key that it was opened under. -/
theorem key_eq : o.settlement.position.key = p.key := (chargeUp_eq_ok o.charge_eq).1.key

theorem key_of_found {k : PositionKey} (hfound : e.book.position k = .ok p) :
    o.settlement.position.key = k := o.key_eq.trans (Book.key_of_position hfound)

theorem stored {k : PositionKey} (hfound : e.book.position k = .ok p) :
    e.book.position o.settlement.position.key = .ok p := by
  rw [o.key_of_found hfound]
  exact hfound

/-- Every position that is left was there before. -/
theorem position_of_after {k : PositionKey} {q : Position}
    (hleft : o.after.book.position k = .ok q) : e.book.position k = .ok q := by
  obtain ⟨hmem, hkey⟩ := Registry.get?_eq_some_iff.1 (Book.position_eq_ok.1 hleft)
  have hold := (Registry.mem_toList_erase.1 hmem).1
  exact Book.position_eq_ok.2 (Registry.get?_eq_some_iff.2 ⟨hold, hkey⟩)

/-- The pool is that of the position. -/
theorem tracked_pool : e.book.pool p.pool = .ok o.tracked := by
  rw [← (chargeUp_eq_ok o.charge_eq).1.pool]
  exact o.tracked_eq

/-- Exposure and health are all that is new of the pool. -/
theorem pool_eq :
    o.pool = { o.tracked with leveraged := o.pool.leveraged, health := o.pool.health } := by
  have hrefreshed := (Pool.refresh_eq_ok o.refresh_eq).1
  rw [(Pool.release_eq_ok o.release_eq).1] at hrefreshed
  rw [hrefreshed]

theorem pool_id : o.pool.id = p.pool := by
  rw [o.pool_eq]
  exact Registry.key_of_get? (Book.pool_eq_ok.1 o.tracked_pool)

/-- The shares of the position are taken off the exposure. -/
theorem leveraged_eq :
    o.tracked.leveraged.units = o.pool.leveraged.units + p.custody.amount.units := by
  rw [(Pool.refresh_eq_ok o.refresh_eq).1, ← (chargeUp_eq_ok o.charge_eq).1.custody]
  exact (Pool.release_eq_ok o.release_eq).2

/-- What is told of a settlement. -/
theorem after_events : o.after.events = e.events ++ o.settlement.events :=
  List.append_assoc _ _ _

end Closing

/-! ## Successes have these steps -/

section

variable {σ κ : Type} {h : Host σ κ} {block : Block} {e e' : Engine} {s t : σ}

/-- The pool is filed twice, with the shares entered and with its health; the second record takes
the place of the first. -/
theorem expose_eq_ok {pool : UInt64} {shares total : Amount} {u : Unit}
    (hexpose : expose pool shares total (e, s) = (.ok u, e', t)) :
    ∃ tracked registered refreshed, e.book.pool pool = .ok tracked ∧
      tracked.register shares = .ok registered ∧ registered.refresh total = .ok refreshed ∧
      ¬ refreshed.health < e.params.poolOpenThreshold ∧
      e' = e.withPool refreshed ∧ t = s := by
  simp only [expose, asking_bind_eq_ok, ofExcept_bind_eq_ok, altering_bind_apply] at hexpose
  obtain ⟨tracked, htracked, registered, hregister, refreshed, hrefresh, hexpose⟩ := hexpose
  have hid : registered.id = refreshed.id := by
    rw [(Pool.refresh_eq_ok hrefresh).1]
  have htwice : (e.withPool registered).withPool refreshed = e.withPool refreshed := by
    simp only [withPool, Book.putPool]
    rw [Registry.insert_insert hid]
  rw [htwice] at hexpose
  -- the threshold is compared with the health of the refreshed record
  change (if refreshed.health < e.params.poolOpenThreshold then _ else _, _, _) = _ at hexpose
  by_cases hlt : refreshed.health < e.params.poolOpenThreshold
  · rw [if_pos hlt] at hexpose
    cases hexpose
  · rw [if_neg hlt] at hexpose
    cases hexpose
    exact ⟨tracked, registered, refreshed, htracked, hregister, hrefresh, hlt, rfl, rfl⟩

theorem openPosition_eq_ok {r : OpenRequest} {response : Response}
    (hopen : openPosition h r block (e, s) = (.ok response, e', t)) :
    ∃ o : Opening h r block e s t, response = o.response ∧ e' = o.after := by
  simp only [openPosition, atomically_eq_ok, asking_bind_eq_ok, onHost_bind_eq_ok,
    allocate_bind_apply] at hopen
  obtain ⟨_, hcheck, worth, collected, hcollect, liabilities, levered, hlever, hopen⟩ := hopen
  obtain ⟨custody, joined, hjoin, health, happraise, total, hshares, hopen⟩ := hopen
  obtain ⟨_, ⟨e₁, s₁⟩, hexpose, hrest⟩ := HostM.bind_eq_ok.1 hopen
  obtain ⟨tracked, registered, pool, htracked, hregister, hrefresh, hlt, rfl, rfl⟩ :=
    expose_eq_ok hexpose
  cases hrest
  exact ⟨⟨worth, liabilities, custody, health, total, tracked, registered, pool, collected,
    levered, hcheck, hcollect, hlever, hjoin, happraise, hshares, htracked, hregister, hrefresh,
    hlt⟩, rfl, rfl⟩

theorem addCollateral_eq_ok {k : PositionKey} {coin : Coin} {health : Decimal}
    (hadd : addCollateral h k coin (e, s) = (.ok health, e', t)) :
    ∃ o : TopUp h k coin e s t, health = o.health ∧ e' = o.after := by
  simp only [addCollateral, atomically_eq_ok, asking_bind_eq_ok, ofExcept_bind_eq_ok,
    onHost_bind_eq_ok, HostM.moving_eq_ok] at hadd
  obtain ⟨before, hfound, _, hcheck, _, sent, hsend, raised, htopUp, found, hhealth, hadd⟩ := hadd
  cases hadd
  exact ⟨⟨before, raised, health, hfound, hcheck, hsend, htopUp, hhealth⟩, rfl, rfl⟩

theorem accruePosition_eq_ok {k : PositionKey} {accrual : Accrual}
    (haccrue : accruePosition h k block (e, s) = (.ok accrual, e', t)) :
    ∃ o : Charge h k block e s t, accrual = o.accrual ∧ e' = o.after := by
  simp only [accruePosition, asking_bind_eq_ok, onHost_bind_eq_ok] at haccrue
  obtain ⟨before, hfound, ⟨planned, position⟩, hplan, _, paid, hpay, haccrue⟩ := haccrue
  cases haccrue
  exact ⟨⟨before, planned, position, hfound, hplan, hpay⟩, rfl, rfl⟩

theorem unexpose_eq_ok {p : Position} {total : Amount} {u : Unit}
    (hunexpose : unexpose p total (e, s) = (.ok u, e', t)) :
    ∃ tracked released refreshed, e.book.pool p.pool = .ok tracked ∧
      tracked.release p.custody.amount = .ok released ∧
      released.refresh total = .ok refreshed ∧ e' = e.withPool refreshed ∧ t = s := by
  simp only [unexpose, asking_bind_eq_ok, ofExcept_bind_eq_ok, altering_bind_apply] at hunexpose
  obtain ⟨tracked, htracked, released, hrelease, refreshed, hrefresh, hunexpose⟩ := hunexpose
  have hid : released.id = refreshed.id := by
    rw [(Pool.refresh_eq_ok hrefresh).1]
  have htwice : (e.withPool released).withPool refreshed = e.withPool refreshed := by
    simp only [withPool, Book.putPool]
    rw [Registry.insert_insert hid]
  rw [altering_apply, htwice] at hunexpose
  cases hunexpose
  exact ⟨tracked, released, refreshed, htracked, hrelease, hrefresh, rfl, rfl⟩

theorem distribute_eq_ok {p : Position} {reason : CloseReason} {accrual : Accrual}
    {settlement : Settlement}
    (hdistribute : distribute h p reason accrual (e, s) = (.ok settlement, e', t)) :
    ∃ d : Distribution h p e.params.interestPolicy s t,
      settlement = d.settlement reason accrual ∧ e' = e.emitAll (p.lossEvents d.shortfall) := by
  simp only [distribute, asking_bind_eq_ok, onHost_bind_eq_ok, ofExcept_bind_eq_ok,
    altering_bind_apply] at hdistribute
  obtain ⟨debt, hdebt, proceeds, redeemed, hredeem, funds, hfunds, hdistribute⟩ := hdistribute
  obtain ⟨_, repaid, hrepay, shortfall, hshortfall, _, forgiven, hforgive, hdistribute⟩ :=
    hdistribute
  obtain ⟨payout, hpayout, _, paid, hpayOut, hdistribute⟩ := hdistribute
  cases hdistribute
  exact ⟨⟨debt, proceeds, funds, shortfall, payout, redeemed, repaid, forgiven, hdebt, hredeem,
    hfunds, hrepay, hshortfall, hforgive, hpayout, hpayOut⟩, rfl, rfl⟩

theorem settle_eq_ok {p : Position} {reason : CloseReason} {settlement : Settlement}
    (hsettle : settle h p reason block (e, s) = (.ok settlement, e', t)) :
    ∃ o : Closing h p reason block e s t, settlement = o.settlement ∧ e' = o.after := by
  simp only [settle, asking_bind_eq_ok] at hsettle
  obtain ⟨⟨accrual, charged⟩, hcharge, health, hhealth, hsettle⟩ := hsettle
  obtain ⟨found, ⟨e₁, s₁⟩, hdistribute, hrest⟩ := HostM.bind_eq_ok.1 hsettle
  obtain ⟨d, rfl, rfl⟩ := distribute_eq_ok hdistribute
  obtain ⟨total, hshares, hrest⟩ := asking_bind_eq_ok.1 hrest
  obtain ⟨_, ⟨e₂, s₂⟩, hunexpose, hlast⟩ := HostM.bind_eq_ok.1 hrest
  obtain ⟨tracked, released, pool, htracked, hrelease, hrefresh, rfl, rfl⟩ :=
    unexpose_eq_ok hunexpose
  cases hlast
  exact ⟨⟨accrual, charged, health, total, tracked, released, pool, hcharge, hhealth, d, hshares,
    htracked, hrelease, hrefresh⟩, rfl, rfl⟩

/-- A close is a settlement from a checkpoint. -/
theorem close_eq_ok {k : PositionKey} {settlement : Settlement}
    (hclose : close h k block (e, s) = (.ok settlement, e', t)) :
    ∃ p, e.book.position k = .ok p ∧
      ∃ o : Closing h p .user block e (h.checkpoint s).2 t,
        settlement = o.settlement ∧ e' = o.after := by
  obtain ⟨p, hfound, hsettle⟩ := asking_bind_eq_ok.1 (atomically_eq_ok.1 hclose)
  exact ⟨p, hfound, settle_eq_ok hsettle⟩

/-- A forced close is a settlement for the reason that the position was judged by. -/
theorem forceClose_eq_closed {k : PositionKey} {settlement : Settlement}
    (hforce : forceClose h k block (e, s) = (.ok (.closed settlement), e', t)) :
    ∃ p reason, e.book.position k = .ok p ∧ e.eligibility h p block s = .ok (.close reason) ∧
      ∃ o : Closing h p reason block e (h.checkpoint s).2 t,
        settlement = o.settlement ∧ e' = o.after := by
  simp only [forceClose, asking_bind_eq_ok] at hforce
  obtain ⟨p, hfound, verdict, hjudged, hforce⟩ := hforce
  cases verdict with
  | healthy _ => cases hforce
  | close reason =>
      obtain ⟨found, ⟨e₁, s₁⟩, hsettle, hlast⟩ := HostM.bind_eq_ok.1 hforce
      cases hlast
      exact ⟨p, reason, hfound, hjudged, settle_eq_ok (atomically_eq_ok.1 hsettle)⟩

end

end LeveragedLp

import LeveragedLp.Proofs.Moves
import LeveragedLp.Proofs.Reachable

/-!
# The order of a settlement

What a settlement has to give out is the proceeds of the custody and the free collateral. The debt
comes first and takes the smaller of the two; of the funds and the debt one is used up by then, so
there is either something to write off or something to pay out, and never both
(`Settlement.InOrder`). Each of the two is what the larger side has beyond the smaller, so the
subtractions that a settlement checks cannot fail: it does what it would do without the checks
(`Engine.distribute_eq_unchecked`). `Settlement.moves` is the row of calls that belongs to the
amounts; a settlement makes these calls and no others.
-/

set_option autoImplicit false

namespace LeveragedLp

open EngineM Engine

/-! ## The checks that cannot fail -/

namespace Engine

variable {σ κ : Type}

/-- Pays out of the position's funds, without a check of what is left over. -/
def distributeUnchecked (h : Host σ κ) (p : Position) (reason : CloseReason) (accrual : Accrual) :
    EngineM σ Settlement := do
  let debt ← EngineM.asking fun e _ => p.debt e.params.interestPolicy
  let proceeds ← EngineM.onHost (p.redeem h)
  let funds ← HostM.ofExcept (proceeds.add p.freeCollateral "settlement funds")
  let repaid := debt.least funds
  let shortfall := debt.saturatingSub funds
  let payout := funds.saturatingSub debt
  EngineM.onHost (Position.repay h repaid)
  EngineM.onHost (p.forgive h shortfall)
  EngineM.altering fun e => e.emitAll (p.lossEvents shortfall)
  EngineM.onHost (p.payOut h payout)
  return { position := p, reason, accrual, debt, proceeds, repaid, shortfall, payout }

/-- What is repaid is the smaller of debt and funds, so it can be taken off both. -/
theorem distribute_eq_unchecked (h : Host σ κ) (p : Position) (reason : CloseReason)
    (accrual : Accrual) :
    distribute h p reason accrual = distributeUnchecked h p reason accrual := by
  unfold distribute distributeUnchecked
  simp only [Amount.sub_least_left, Amount.sub_least_right]
  rfl

end Engine

/-! ## The amounts -/

/-- The amounts of a settlement are those of paying a debt out of the proceeds and some free
collateral. -/
structure Settlement.InOrder (t : Settlement) (free : Amount) : Prop where
  repaid : t.repaid.units = min t.debt.units (t.proceeds.units + free.units)
  shortfall :
    t.shortfall.units = t.debt.units - min t.debt.units (t.proceeds.units + free.units)
  payout : t.payout.units =
    t.proceeds.units + free.units - min t.debt.units (t.proceeds.units + free.units)

namespace Settlement.InOrder

variable {t : Settlement} {free : Amount}

/-- A loss and a payout exclude each other. -/
theorem isZero_or (x : t.InOrder free) : t.shortfall.isZero ∨ t.payout.isZero := by
  have hshortfall := x.shortfall
  have hpayout := x.payout
  rcases Nat.le_total t.debt.units (t.proceeds.units + free.units) with hle | hle
  · left
    apply Amount.isZero_iff.2
    omega
  · right
    apply Amount.isZero_iff.2
    omega

end Settlement.InOrder

namespace Distribution

variable {σ κ : Type} {h : Host σ κ} {p : Position} {policy : InterestPolicy} {s t : σ}

theorem inOrder (d : Distribution h p policy s t) (reason : CloseReason) (accrual : Accrual) :
    (d.settlement reason accrual).InOrder p.freeCollateral := by
  have hfunds := Amount.add_eq_ok.1 d.funds_eq
  have hrepaid := d.debt.units_least d.funds
  have hshortfall := Amount.sub_eq_ok.1 d.shortfall_eq
  have hpayout := Amount.sub_eq_ok.1 d.payout_eq
  rw [hfunds] at hrepaid hpayout
  constructor
  case repaid => exact hrepaid
  case shortfall =>
    show d.shortfall.units = d.debt.units - min d.debt.units (d.proceeds.units + _)
    omega
  case payout =>
    show d.payout.units = d.proceeds.units + _ - min d.debt.units (d.proceeds.units + _)
    omega

end Distribution

/-! ## The calls -/

/-- The transfers of settling a position with these amounts. -/
def Settlement.moves (t : Settlement) (p : Position) : List Transfer :=
  unlessZero p.custody.amount [.swapped .engine p.custody p.borrowAsset t.proceeds] ++
  unlessZero t.repaid [.repaid .engine t.repaid] ++
  unlessZero t.shortfall [.wroteOff t.shortfall, .absorbed p.pool ⟨p.borrowAsset, t.shortfall⟩] ++
  unlessZero t.payout [.sent .engine p.owner ⟨p.borrowAsset, t.payout⟩]

/-- A success on a host is one on the journaled host, whatever is in the journal before. -/
theorem EngineM.journaled_eq_ok {σ α : Type} {x : EngineM (σ × Journal) α} {y : EngineM σ α}
    (hx : HostM.Erases plain x y) {e e' : Engine} {s t : σ} {a : α} (before : Journal)
    (hy : y (e, s) = (.ok a, e', t)) : ∃ j, x (e, s, before) = (.ok a, e', t, j) := by
  have herased := hx (e, s, before)
  change y (e, s) = _ at herased
  rw [hy] at herased
  rcases hres : x (e, s, before) with ⟨result, e₁, t₁, j⟩
  rw [hres] at herased
  cases herased
  exact ⟨j, rfl⟩

/-- Custody is swapped back alike whatever was charged. -/
theorem Position.Continues.redeem_eq {σ κ : Type} {p q : Position} (hq : p.Continues q)
    (h : Host σ κ) : q.redeem h = p.redeem h := by
  unfold Position.redeem
  rw [hq.custody, hq.borrowAsset]

namespace Closing

section

variable {σ κ : Type} {h : Host σ κ} {p : Position} {reason : CloseReason} {block : Block}
variable {e : Engine} {s t : σ} (o : Closing h p reason block e s t)

/-- The interest of a settlement is not paid from free collateral. -/
theorem freeCollateral_eq : o.charged.freeCollateral = p.freeCollateral := by
  obtain ⟨hcharged, hpaid⟩ := chargeUp_eq_ok o.charge_eq
  have hfree := hcharged.free
  rw [hpaid] at hfree
  exact Amount.ext hfree.symm

theorem inOrder : o.settlement.InOrder p.freeCollateral := by
  have hpaid := o.paid.inOrder reason o.accrual
  rw [← o.freeCollateral_eq]
  exact hpaid

/-- The proceeds are what the custody of the position was swapped for. -/
theorem redeem_fst : (p.redeem h s).1 = .ok o.settlement.proceeds := by
  have hcharged := (chargeUp_eq_ok o.charge_eq).1
  rw [← hcharged.redeem_eq h]
  exact congrArg Prod.fst o.paid.redeem_eq

/-- Without custody there is nothing to swap, and there are no proceeds. -/
theorem proceeds_of_isZero (hzero : p.custody.amount.isZero) :
    o.settlement.proceeds = .zero := by
  have hredeem := o.redeem_fst
  unfold Position.redeem at hredeem
  rw [if_pos hzero] at hredeem
  exact (Except.ok.inj hredeem).symm

/-- The debt that is paid has all the interest in it. -/
theorem debt_units : o.settlement.debt.units =
    p.debtUnits e.params.interestPolicy + o.accrual.due.units := by
  obtain ⟨hcharged, hpaid⟩ := chargeUp_eq_ok o.charge_eq
  have hnone : o.accrual.paid.units = 0 := by rw [hpaid]; rfl
  have hdebt : o.settlement.debt.units = o.charged.debtUnits e.params.interestPolicy :=
    Position.debt_eq_ok.1 o.paid.debt_eq
  have hgrown := hcharged.debt
  omega

/-- The settlement pays what the amounts say, to the owner and for the pool of the position. -/
theorem moves_eq : o.paid.moves = o.settlement.moves p := by
  have hcharged := (chargeUp_eq_ok o.charge_eq).1
  have howner : o.charged.owner = p.owner := congrArg PositionKey.owner hcharged.key
  unfold Distribution.moves Settlement.moves Position.loss
  rw [← hcharged.custody, ← hcharged.borrowAsset, ← hcharged.pool, ← howner]
  rfl

end

theorem wrote_moves {σ κ : Type} {h : Host σ κ} {p : Position} {reason : CloseReason}
    {block : Block} {e : Engine} {s t : σ × Journal}
    (o : Closing h.journaled p reason block e s t) : Wrote s t (o.settlement.moves p) := by
  rw [← o.moves_eq]
  exact o.paid.wrote

end Closing

/-! ## A settlement pays in order -/

/-- A success of a settlement, from the engine `e` and the host in state `s`. -/
structure SettlesInOrder {σ κ : Type} (h : Host σ κ) (p : Position) (reason : CloseReason)
    (block : Block) (e : Engine) (s : σ) (x : Settlement) (e' : Engine) (t : σ) : Prop where
  /-- The debt is that after the interest was charged, which leaves the free collateral alone. -/
  debt : ∃ charged, e.chargeUp h p block.time s = .ok (x.accrual, charged) ∧
    charged.freeCollateral = p.freeCollateral ∧
    charged.debt e.params.interestPolicy = .ok x.debt
  proceeds : p.custody.amount.isZero → x.proceeds = .zero
  amounts : x.InOrder p.freeCollateral
  exclusive : x.shortfall.isZero ∨ x.payout.isZero
  liabilities : x.response.liabilities = x.debt
  repayAmount : x.response.repayAmount = x.repaid
  finalCollateral : x.response.finalCollateral = x.payout
  /-- On the host with a journal the same happens, and these are the calls. -/
  calls : ∃ j, settle h.journaled p reason block (e, s, []) = (.ok x, e', t, j) ∧
    j.map Entry.moved = x.moves p

namespace Engine

variable {σ κ : Type} {h : Host σ κ} {e e' : Engine} {p : Position} {reason : CloseReason}
variable {block : Block} {s t : σ} {x : Settlement}

/-- **The waterfall of a settlement.** A settlement never fails for what is left over of the debt or
of the funds. Where it succeeds, it repays the debt as far as proceeds and free collateral reach,
writes off what they do not reach, and pays the owner what is left of them. -/
theorem settle_pays_in_order :
    (∀ charged accrual, distribute h charged reason accrual =
      distributeUnchecked h charged reason accrual) ∧
    (settle h p reason block (e, s) = (.ok x, e', t) →
      SettlesInOrder h p reason block e s x e' t) := by
  constructor
  · intro charged accrual
    exact distribute_eq_unchecked h charged reason accrual
  · intro hsettle
    -- the same settlement on the journaled host, which has its calls
    obtain ⟨j, hjournaled⟩ := journaled_eq_ok (settle_erases p reason block) [] hsettle
    obtain ⟨o, rfl, -⟩ := settle_eq_ok hjournaled
    have hcalls : j.map Entry.moved = o.settlement.moves p := by
      obtain ⟨new, hnew, hmoves⟩ := o.wrote_moves
      rw [← hmoves]
      exact congrArg (List.map Entry.moved) hnew
    have hdebt : e.chargeUp h p block.time s = .ok (o.accrual, o.charged) := o.charge_eq
    have hamounts := o.inOrder
    exact ⟨⟨o.charged, hdebt, o.freeCollateral_eq, o.paid.debt_eq⟩, o.proceeds_of_isZero, hamounts,
      hamounts.isZero_or, rfl, rfl, rfl, ⟨j, hjournaled, hcalls⟩⟩

/-- After a year without a payment the shares and the top-up do not reach for Alice's debt, which
has doubled. -/
theorem year_of_interest_leaves_a_loss :
    let world := Sample.world
      [.createPool 1 (.tenths 50) true,
       .openPosition Sample.opening ⟨1, 0⟩,
       .addCollateral ⟨Sample.alice, 1⟩ ⟨.usdc, { units := 60 }⟩]
    ∃ p x e' t, world.1.book.position ⟨Sample.alice, 1⟩ = .ok p ∧
      settle Chain.host p .liquidation ⟨2, 31536000⟩ world = (.ok x, e', t) ∧
      x.debt.units = 8000 ∧ x.repaid.units = 4944 ∧ x.shortfall.units = 3056 ∧
      SettlesInOrder Chain.host p .liquidation ⟨2, 31536000⟩ world.1 world.2 x e' t := by
  intro world
  have hamounts : ((world.1.book.position ⟨Sample.alice, 1⟩).map fun p =>
      (settle Chain.host p .liquidation ⟨2, 31536000⟩ world).1.map fun x =>
        (x.debt.units, x.repaid.units, x.shortfall.units)) = .ok (.ok (8000, 4944, 3056)) := by
    decide +kernel
  obtain ⟨p, hp, hamounts⟩ := except_map_eq_ok.1 hamounts
  obtain ⟨x, hx, hamounts⟩ := except_map_eq_ok.1 hamounts
  obtain ⟨hdebt, hrest⟩ := Prod.mk.inj hamounts
  obtain ⟨hrepaid, hshortfall⟩ := Prod.mk.inj hrest
  have hrun := eq_of_fst hx
  exact ⟨p, x, _, _, hp, hrun, hdebt, hrepaid, hshortfall, settle_pays_in_order.2 hrun⟩

end Engine

end LeveragedLp

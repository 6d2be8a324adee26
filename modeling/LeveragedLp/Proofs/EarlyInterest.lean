import LeveragedLp.Proofs.Ledger
import LeveragedLp.Proofs.Standstill
import LeveragedLp.Proofs.Waterfall

/-!
# Interest paid early

Interest that is paid out of the free collateral before a close makes debt and funds smaller by the
same amount. What the close then repays is smaller by that amount as well, and the loss or the
payout, which is what the two differ by, is the same (`Charge.same_money`). The close itself finds
nothing to charge after the accrual of the same block; without the accrual it charges the same
interest, because a checkpoint does not change the rate. Added up over the calls, owner, lending
facility and losses come to the same on both ways (`Journal.SameMoney`).
-/

set_option autoImplicit false

namespace LeveragedLp

open EngineM Engine

/-! ## Who gets what -/

namespace Transfer

/-- The units that a transfer pays to the lending facility. -/
def lenderUnits (x : Transfer) : Nat := x.repaidUnits + x.interestUnits

/-- The units that the engine sends to an owner. -/
def payoutUnits (owner : Address) : Transfer → Nat
  | sent source target coin => if source = .engine ∧ target = owner then coin.amount.units else 0
  | _ => 0

end Transfer

/-- The calls of two journals come to the same money for the owner of a position, for the lending
facility and for those who bear its losses. -/
structure Journal.SameMoney (owner : Address) (i j : Journal) : Prop where
  payout : i.total (Transfer.payoutUnits owner) = j.total (Transfer.payoutUnits owner)
  lender : i.total Transfer.lenderUnits = j.total Transfer.lenderUnits
  loss : i.total Transfer.writtenOffUnits = j.total Transfer.writtenOffUnits

namespace Settlement

variable (x : Settlement) (p : Position)

theorem payout_moves : ((x.moves p).map (Transfer.payoutUnits p.owner)).sum = x.payout.units := by
  unfold moves
  simp only [List.map_append, List.sum_append]
  rw [sum_unlessZero _ fun _ => rfl, sum_unlessZero _ fun _ => rfl, sum_unlessZero _ fun _ => rfl,
    sum_unlessZero]
  · simp [Transfer.payoutUnits]
  · intro hzero
    simp [Transfer.payoutUnits, hzero]

theorem lender_moves : ((x.moves p).map Transfer.lenderUnits).sum = x.repaid.units := by
  unfold moves
  simp only [List.map_append, List.sum_append]
  rw [sum_unlessZero _ fun _ => rfl, sum_unlessZero _ fun h0 => h0, sum_unlessZero _ fun _ => rfl,
    sum_unlessZero _ fun _ => rfl]
  show 0 + x.repaid.units + 0 + 0 = _
  omega

theorem loss_moves : ((x.moves p).map Transfer.writtenOffUnits).sum = x.shortfall.units := by
  unfold moves
  simp only [List.map_append, List.sum_append]
  rw [sum_unlessZero _ fun _ => rfl, sum_unlessZero _ fun _ => rfl, sum_unlessZero _ fun h0 => h0,
    sum_unlessZero _ fun _ => rfl]
  show 0 + 0 + (x.shortfall.units + 0) + 0 = _
  omega

end Settlement

/-! ## The amounts of the two ways -/

section

variable {σ κ : Type} {h : Host σ κ} {k : PositionKey} {block : Block} {e : Engine}
variable {s s₁ s₂ s₃ t : σ}

/-- A settlement at the time of the last accrual charges nothing. -/
theorem Closing.due_of_no_time {p : Position} {reason : CloseReason}
    (o : Closing h p reason block e s t) (hnow : block.time ≤ p.accruedUntil) :
    o.accrual.due = .zero := by
  have hdue := (chargeUp_develops o.charge_eq).1.due
  rw [Position.elapsed_of_le hnow, interestDue_of_no_time] at hdue
  exact (Except.ok.inj hdue).symm

/-- What is paid early is repaid less at the close, and nothing else is different. -/
theorem Charge.same_money (hrate : h.interestRate (h.checkpoint s).2 = h.interestRate s)
    (c : Charge h k block e s s₁)
    (first : Closing h c.position .user block c.after (h.checkpoint s₁).2 s₂)
    (direct : Closing h c.before .user block e (h.checkpoint s).2 s₃)
    (hproceeds : first.settlement.proceeds = direct.settlement.proceeds) :
    first.settlement.payout = direct.settlement.payout ∧
      first.settlement.shortfall = direct.settlement.shortfall ∧
      c.accrual.paid.units + first.settlement.repaid.units = direct.settlement.repaid.units := by
  have hcharged := planEpoch_eq_ok c.plan_eq
  have hfree := hcharged.free
  have hdebt := hcharged.debt
  -- the close after the accrual finds the debt that the accrual left
  have hfirst : first.settlement.debt.units =
      c.position.debtUnits e.params.interestPolicy := by
    have hnothing := first.due_of_no_time c.develops.le_accruedUntil
    have hunits := first.debt_units
    rw [hnothing] at hunits
    exact hunits
  -- the direct close charges what the accrual did
  have hdirect : direct.settlement.debt.units =
      c.before.debtUnits e.params.interestPolicy + c.accrual.due.units := by
    have hearly := (planEpoch_develops c.plan_eq).1.due
    have hlate := (chargeUp_develops direct.charge_eq).1.due
    rw [hrate, hearly] at hlate
    have hunits := direct.debt_units
    rw [← Except.ok.inj hlate] at hunits
    exact hunits
  have hx := first.inOrder
  have hy := direct.inOrder
  have hrepaid := hx.repaid
  have hrepaid' := hy.repaid
  rw [hproceeds] at hrepaid
  refine ⟨Amount.ext ?_, Amount.ext ?_, ?_⟩
  · have hpayout := hx.payout
    have hpayout' := hy.payout
    rw [hproceeds] at hpayout
    omega
  · have hshortfall := hx.shortfall
    have hshortfall' := hy.shortfall
    rw [hproceeds] at hshortfall
    omega
  · omega

/-- The charged position is found under the key of the charge. -/
theorem Charge.found_after (c : Charge h k block e s t) :
    c.after.book.position k = .ok c.position := by
  have hget := Registry.get?_insert_self e.book.positions c.position
  have hkey : Keyed.key c.position = k := c.key_eq
  rw [hkey] at hget
  exact Book.position_eq_ok.2 hget

end

/-! ## The calls of the two ways -/

section

variable {σ κ : Type} {h : Host σ κ} {k : PositionKey} {block : Block} {e : Engine}
variable {s t : σ × Journal}

/-- The calls of a charge pay the lending facility, and nobody else. -/
theorem Charge.totals (c : Charge h.journaled k block e s t) (owner : Address) :
    t.2.total (Transfer.payoutUnits owner) = s.2.total (Transfer.payoutUnits owner) ∧
      t.2.total Transfer.lenderUnits = s.2.total Transfer.lenderUnits + c.accrual.paid.units ∧
      t.2.total Transfer.writtenOffUnits = s.2.total Transfer.writtenOffUnits := by
  have hpayout : (c.moves.map (Transfer.payoutUnits owner)).sum = 0 := sum_unlessZero _ fun _ => rfl
  have hlender : (c.moves.map Transfer.lenderUnits).sum = 0 + c.accrual.paid.units :=
    sum_unlessZero _ fun h0 => (Nat.zero_add _).trans h0
  have hloss : (c.moves.map Transfer.writtenOffUnits).sum = 0 := sum_unlessZero _ fun _ => rfl
  have htotal := Journal.total_of_wrote c.wrote
  refine ⟨?_, ?_, ?_⟩
  · rw [htotal, hpayout, Nat.add_zero]
  · rw [htotal, hlender, Nat.zero_add]
  · rw [htotal, hloss, Nat.add_zero]

/-- The calls of a settlement come to its amounts. -/
theorem Closing.totals {p : Position} {reason : CloseReason}
    (o : Closing h.journaled p reason block e s t) :
    t.2.total (Transfer.payoutUnits p.owner) =
        s.2.total (Transfer.payoutUnits p.owner) + o.settlement.payout.units ∧
      t.2.total Transfer.lenderUnits =
        s.2.total Transfer.lenderUnits + o.settlement.repaid.units ∧
      t.2.total Transfer.writtenOffUnits =
        s.2.total Transfer.writtenOffUnits + o.settlement.shortfall.units := by
  have htotal := Journal.total_of_wrote o.wrote_moves
  refine ⟨?_, ?_, ?_⟩
  · rw [htotal, Settlement.payout_moves]
  · rw [htotal, Settlement.lender_moves]
  · rw [htotal, Settlement.loss_moves]

/-- What is paid early is in the journal of the accrual, and what is paid at the close in that of
the close, which goes on from it. -/
theorem Charge.journals_sameMoney {s s₁ s₂ s₃ : σ} {i₁ i j : Journal}
    (c : Charge h.journaled k block e (s, []) (s₁, i₁))
    (x : Closing h.journaled c.position .user block c.after (h.journaled.checkpoint (s₁, i₁)).2
      (s₂, i))
    (y : Closing h.journaled c.before .user block e (h.journaled.checkpoint (s, [])).2 (s₃, j))
    (hpayout : x.settlement.payout = y.settlement.payout)
    (hshortfall : x.settlement.shortfall = y.settlement.shortfall)
    (hlender : c.accrual.paid.units + x.settlement.repaid.units = y.settlement.repaid.units) :
    i.SameMoney c.before.owner j := by
  have howner : c.position.owner = c.before.owner :=
    congrArg PositionKey.owner (planEpoch_eq_ok c.plan_eq).key
  -- the journal of a close goes on from that of the accrual, or from nothing
  obtain ⟨hpayout₁, hlender₁, hloss₁⟩ := c.totals c.before.owner
  obtain ⟨hpayout₂, hlender₂, hloss₂⟩ := x.totals
  obtain ⟨hpayout₃, hlender₃, hloss₃⟩ := y.totals
  rw [howner] at hpayout₂
  constructor
  case payout =>
    calc i.total (Transfer.payoutUnits c.before.owner)
        = i₁.total (Transfer.payoutUnits c.before.owner) + x.settlement.payout.units := hpayout₂
      _ = 0 + x.settlement.payout.units := by rw [hpayout₁]; rfl
      _ = 0 + y.settlement.payout.units := by rw [hpayout]
      _ = j.total (Transfer.payoutUnits c.before.owner) := hpayout₃.symm
  case lender =>
    calc i.total Transfer.lenderUnits
        = i₁.total Transfer.lenderUnits + x.settlement.repaid.units := hlender₂
      _ = 0 + (c.accrual.paid.units + x.settlement.repaid.units) := by
          rw [hlender₁]
          exact Nat.add_assoc ..
      _ = 0 + y.settlement.repaid.units := by rw [hlender]
      _ = j.total Transfer.lenderUnits := hlender₃.symm
  case loss =>
    calc i.total Transfer.writtenOffUnits
        = i₁.total Transfer.writtenOffUnits + x.settlement.shortfall.units := hloss₂
      _ = 0 + x.settlement.shortfall.units := by rw [hloss₁]; rfl
      _ = 0 + y.settlement.shortfall.units := by rw [hshortfall]
      _ = j.total Transfer.writtenOffUnits := hloss₃.symm

end

/-! ## The two ways -/

namespace Engine

variable {σ κ : Type} {h : Host σ κ} {k : PositionKey} {block : Block} {e e₁ e₂ e₃ : Engine}
variable {s s₁ s₂ s₃ : σ} {p : Position} {accrual : Accrual} {first direct : Settlement}

/-- **Paying early saves nothing and costs nothing.** A position is charged and then closed in the
same block, or it is closed at once, on a host where taking a checkpoint does not change the rate,
and where the payment of interest does not change what the custody can be swapped for. Then the
owner gets the same, the same is written off, and the lending facility is paid the same. -/
theorem interest_paid_early (hfound : e.book.position k = .ok p)
    (hrate : h.interestRate (h.checkpoint s).2 = h.interestRate s)
    (haccrue : accruePosition h k block (e, s) = (.ok accrual, e₁, s₁))
    (hfirst : close h k block (e₁, s₁) = (.ok first, e₂, s₂))
    (hdirect : close h k block (e, s) = (.ok direct, e₃, s₃))
    (hexit : (p.redeem h (h.checkpoint s₁).2).1 = (p.redeem h (h.checkpoint s).2).1) :
    first.payout = direct.payout ∧ first.shortfall = direct.shortfall ∧
      accrual.paid.units + first.repaid.units = direct.repaid.units ∧
      ∃ i₁ i j, accruePosition h.journaled k block (e, s, []) = (.ok accrual, e₁, s₁, i₁) ∧
        close h.journaled k block (e₁, s₁, i₁) = (.ok first, e₂, s₂, i) ∧
        close h.journaled k block (e, s, []) = (.ok direct, e₃, s₃, j) ∧
        i.SameMoney p.owner j := by
  -- both ways on the journaled host, which has their calls
  obtain ⟨i₁, haccrue⟩ := journaled_eq_ok (accruePosition_erases k block) [] haccrue
  obtain ⟨i, hfirst⟩ := journaled_eq_ok (close_erases k block) i₁ hfirst
  obtain ⟨j, hdirect⟩ := journaled_eq_ok (close_erases k block) [] hdirect
  obtain ⟨c, rfl, rfl⟩ := accruePosition_eq_ok haccrue
  obtain ⟨q, hcharged, x, rfl, rfl⟩ := close_eq_ok hfirst
  obtain ⟨q', hsame, y, rfl, rfl⟩ := close_eq_ok hdirect
  have hq : q = c.position := Except.ok.inj (hcharged.symm.trans c.found_after)
  have hq' : q' = c.before := Except.ok.inj (hsame.symm.trans c.found_eq)
  have hp : p = c.before := Except.ok.inj (hfound.symm.trans c.found_eq)
  subst hq hq' hp
  have hproceeds : x.settlement.proceeds = y.settlement.proceeds := by
    have hx := x.redeem_fst
    have hy := y.redeem_fst
    rw [(planEpoch_eq_ok c.plan_eq).redeem_eq, redeem_journaled_fst] at hx
    rw [redeem_journaled_fst] at hy
    exact Except.ok.inj (hx.symm.trans (hexit.trans hy))
  have hsteady : h.journaled.interestRate (h.journaled.checkpoint (s, [])).2 =
      h.journaled.interestRate (s, []) := hrate
  obtain ⟨hpayout, hshortfall, hlender⟩ := c.same_money hsteady x y hproceeds
  exact ⟨hpayout, hshortfall, hlender, i₁, i, j, haccrue, hfirst, hdirect,
    c.journals_sameMoney x y hpayout hshortfall hlender⟩

/-- Alice's top-up pays a part of the interest of ten weeks, or joins the proceeds. -/
theorem top_up_is_spent_once :
    let world := Sample.world
      [.createPool 1 (.tenths 50) true,
       .openPosition Sample.opening ⟨1, 0⟩,
       .addCollateral ⟨Sample.alice, 1⟩ ⟨.usdc, { units := 60 }⟩]
    let k : PositionKey := ⟨Sample.alice, 1⟩
    let block : Block := ⟨2, 6307200⟩
    let charged := accruePosition Chain.host k block (world.1, world.2)
    let closed := close Chain.host k block (charged.2.1, charged.2.2)
    let direct := close Chain.host k block (world.1, world.2)
    ∃ accrual x y, charged.1 = .ok accrual ∧ closed.1 = .ok x ∧ direct.1 = .ok y ∧
      accrual.paid.units = 60 ∧ x.repaid.units = 4740 ∧ x.payout.units = 144 ∧
      y.repaid.units = 4800 ∧ y.payout.units = 144 ∧
      x.payout = y.payout ∧ x.shortfall = y.shortfall ∧
      accrual.paid.units + x.repaid.units = y.repaid.units := by
  intro world k block charged closed direct
  have hpaid : (charged.1.map fun a => a.paid.units) = .ok 60 := by decide +kernel
  have hclosed : (closed.1.map fun x => (x.repaid.units, x.payout.units)) = .ok (4740, 144) := by
    decide +kernel
  have hdirect : (direct.1.map fun x => (x.repaid.units, x.payout.units)) = .ok (4800, 144) := by
    decide +kernel
  -- what Alice's shares are swapped for, before the payment and after it
  have hexits : ((world.1.book.position k).map fun p =>
      decide ((p.redeem Chain.host (Chain.host.checkpoint charged.2.2).2).1 =
        (p.redeem Chain.host (Chain.host.checkpoint world.2).2).1)) = .ok true := by
    decide +kernel
  obtain ⟨accrual, haccrual, hpaid⟩ := except_map_eq_ok.1 hpaid
  obtain ⟨x, hx, hclosed⟩ := except_map_eq_ok.1 hclosed
  obtain ⟨y, hy, hdirect⟩ := except_map_eq_ok.1 hdirect
  obtain ⟨p, hp, hexit⟩ := except_map_eq_ok.1 hexits
  have hcharged := eq_of_fst haccrual
  have hfirst := eq_of_fst hx
  have hlast := eq_of_fst hy
  have hrate : ∀ c, Chain.host.interestRate (Chain.host.checkpoint c).2 =
      Chain.host.interestRate c := fun _ => rfl
  have hsame := interest_paid_early hp (hrate world.2) hcharged hfirst hlast
    (of_decide_eq_true hexit)
  obtain ⟨hrepaid, hpayout⟩ := Prod.mk.inj hclosed
  obtain ⟨hrepaid', hpayout'⟩ := Prod.mk.inj hdirect
  exact ⟨accrual, x, y, haccrual, hx, hy, hpaid, hrepaid, hpayout, hrepaid', hpayout', hsame.1,
    hsame.2.1, hsame.2.2.1⟩

end Engine

end LeveragedLp

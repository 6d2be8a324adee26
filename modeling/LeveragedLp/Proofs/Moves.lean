import LeveragedLp.Proofs.Journal
import LeveragedLp.Proofs.Turns

/-!
# What a success enters in the journal

Each of the changes that move funds makes a fixed row of calls. For an opening, a top-up, a charge
and a settlement on a journaled host, `moves` is the row of transfers that it enters, read off the
amounts of its steps, and `wrote` says that it enters just these. A call whose amount is zero is
not made. Rests enter nothing, even where calls were made and undone.
-/

set_option autoImplicit false

namespace LeveragedLp

open EngineM Engine

/-- From one state of a journaled host to another just these transfers were entered. -/
def Wrote {σ : Type} (s t : σ × Journal) (moves : List Transfer) : Prop :=
  ∃ new : Journal, t.2 = s.2 ++ new ∧ new.map Entry.moved = moves

namespace Wrote

variable {σ : Type} {s t u : σ × Journal} {moves moves' : List Transfer}

theorem nothing (h : t.2 = s.2) : Wrote s t [] := ⟨[], by rw [h, List.append_nil], rfl⟩

theorem trans (x : Wrote s t moves) (y : Wrote t u moves') : Wrote s u (moves ++ moves') := by
  obtain ⟨new, hnew, hmoves⟩ := x
  obtain ⟨new', hnew', hmoves'⟩ := y
  refine ⟨new ++ new', ?_, ?_⟩
  · rw [hnew', hnew, List.append_assoc]
  · rw [List.map_append, hmoves, hmoves']

theorem isPrefix (x : Wrote s t moves) : s.2 <+: t.2 := by
  obtain ⟨new, hnew, -⟩ := x
  exact ⟨new, hnew.symm⟩

end Wrote

/-! ## The calls -/

/-- The transfers of a call that is made unless its amount is zero. -/
def unlessZero (amount : Amount) (moves : List Transfer) : List Transfer :=
  if amount.isZero then [] else moves

/-- Leaving out calls with an amount of zero does not change a total to which they add nothing. -/
theorem sum_unlessZero {M : Type} [AddCommMonoid M] (f : Transfer → M) {amount : Amount}
    {moves : List Transfer} (h : amount.units = 0 → (moves.map f).sum = 0) :
    ((unlessZero amount moves).map f).sum = (moves.map f).sum := by
  unfold unlessZero
  by_cases hzero : amount.isZero
  · rw [if_pos hzero]
    exact (h (Amount.isZero_iff.1 hzero)).symm
  · rw [if_neg hzero]

section

variable {σ κ α : Type} {h : Host σ κ} {s t : σ × Journal} {amount : Amount}

theorem Host.noting_wrote {moved : α → Transfer} {call : σ → Except HostFault α × σ} {a : α}
    (hcall : h.noting moved call s = (.ok a, t)) :
    t.2 = s.2 ++ [⟨h.lendingDenom s.1, moved a⟩] := by
  unfold noting at hcall
  revert hcall
  rcases call s.1 with ⟨_ | b, u⟩
  · intro hcall
    cases hcall
  · intro hcall
    cases hcall
    rfl

theorem Wrote.of_noting {moved : α → Transfer} {call : σ → Except HostFault α × σ} {a : α}
    (hcall : h.noting moved call s = (.ok a, t)) : Wrote s t [moved a] :=
  ⟨[⟨h.lendingDenom s.1, moved a⟩], Host.noting_wrote hcall, rfl⟩

/-- The same of a call that answers nothing. -/
theorem Wrote.of_moving {movement : Movement} {x : Transfer}
    {call : σ → Except HostFault Unit × σ} {u : Unit}
    (hmove : HostM.moving movement (h.noting (fun _ => x) call) s = (.ok u, t)) : Wrote s t [x] :=
  .of_noting (HostM.moving_eq_ok.1 hmove)

/-- A swap is entered with the asset that was asked for. -/
theorem Host.trade_wrote {coin : Coin} {target : Denom} {least out : Amount}
    (htrade : h.journaled.trade coin target least s = (.ok out, t)) :
    Wrote s t [.swapped .engine coin target out] := by
  -- the journaled host hands out routes that name the target they were asked for
  obtain ⟨route, u, hread, hswap⟩ := HostM.bind_eq_ok.1 htrade
  obtain ⟨hroute, rfl⟩ := HostM.reading_eq_ok.1 hread
  obtain ⟨own, -, hown⟩ := Option.map_eq_some_iff.1 (orFault_eq_ok.1 hroute)
  have htarget : route.target = target := by rw [← hown]
  have hwrote := Wrote.of_noting (HostM.moving_eq_ok.1 hswap)
  rw [htarget] at hwrote
  exact hwrote

theorem borrow_wrote {u : Unit} (hborrow : OpenRequest.borrow h.journaled amount s = (.ok u, t)) :
    Wrote s t [.borrowed .engine amount] := by
  obtain ⟨_, st, hread, hmove⟩ := HostM.bind_eq_ok.1 hborrow
  obtain ⟨-, rfl⟩ := HostM.reading_eq_ok.1 hread
  exact Wrote.of_moving hmove

theorem lever_wrote {r : OpenRequest} {worth liabilities : Amount}
    (hlever : r.lever h.journaled worth s = (.ok liabilities, t)) :
    Wrote s t (unlessZero liabilities [.borrowed .engine liabilities]) := by
  obtain ⟨asked, u, hasked, hlever⟩ := HostM.bind_eq_ok.1 hlever
  obtain ⟨-, rfl⟩ := HostM.ofExcept_eq_ok.1 hasked
  unfold unlessZero
  by_cases hzero : asked.isZero
  · rw [if_pos hzero] at hlever
    obtain ⟨rfl, rfl⟩ := HostM.pure_eq_ok.1 hlever
    rw [if_pos hzero]
    exact .nothing rfl
  · rw [if_neg hzero] at hlever
    obtain ⟨_, u, hborrow, hlast⟩ := HostM.bind_eq_ok.1 hlever
    obtain ⟨rfl, rfl⟩ := HostM.pure_eq_ok.1 hlast
    rw [if_neg hzero]
    exact borrow_wrote hborrow

theorem collect_wrote {r : OpenRequest} {worth : Amount}
    (hcollect : r.collect h.journaled s = (.ok worth, t)) :
    Wrote s t (.sent r.owner .engine r.collateral ::
        if r.collateral.denom = r.borrowAsset then []
        else [.swapped .engine r.collateral r.borrowAsset worth]) ∧
      (r.collateral.denom = r.borrowAsset → worth = r.collateral.amount) := by
  obtain ⟨_, u, hsend, hcollect⟩ := HostM.bind_eq_ok.1 hcollect
  have hsent := Wrote.of_moving hsend
  by_cases hsame : r.collateral.denom = r.borrowAsset
  · rw [if_pos hsame] at hcollect ⊢
    obtain ⟨rfl, rfl⟩ := HostM.pure_eq_ok.1 hcollect
    exact ⟨hsent, fun _ => rfl⟩
  · rw [if_neg hsame] at hcollect ⊢
    exact ⟨hsent.trans (Host.trade_wrote hcollect), fun h => absurd h hsame⟩

/-- The first entry of an opening tells what was lent when the request was checked. -/
theorem collect_lending {r : OpenRequest} {worth : Amount}
    (hcollect : r.collect h.journaled s = (.ok worth, t)) :
    ∃ x ∈ t.2, x.lending = h.lendingDenom s.1 := by
  obtain ⟨_, u, hsend, hrest⟩ := HostM.bind_eq_ok.1 hcollect
  have hsent := Host.noting_wrote (HostM.moving_eq_ok.1 hsend)
  let first : Entry := ⟨h.lendingDenom s.1, .sent r.owner .engine r.collateral⟩
  have hfirst : first ∈ u.2 := by
    rw [hsent]
    exact List.mem_append_right _ List.mem_cons_self
  refine ⟨first, ?_, rfl⟩
  by_cases hsame : r.collateral.denom = r.borrowAsset
  · rw [if_pos hsame] at hrest
    obtain ⟨rfl, rfl⟩ := HostM.pure_eq_ok.1 hrest
    exact hfirst
  · rw [if_neg hsame] at hrest
    exact (Host.trade_wrote hrest).isPrefix.subset hfirst

theorem join_wrote {r : OpenRequest} {worth liabilities custody : Amount}
    (hjoin : r.join h.journaled worth liabilities s = (.ok custody, t)) :
    ∃ principal : Amount, principal.units = worth.units + liabilities.units ∧
      Wrote s t [.swapped .engine ⟨r.borrowAsset, principal⟩ r.shares custody] := by
  obtain ⟨principal, u, hadd, htrade⟩ := HostM.bind_eq_ok.1 hjoin
  obtain ⟨hsum, rfl⟩ := HostM.ofExcept_eq_ok.1 hadd
  exact ⟨principal, Amount.add_eq_ok.1 hsum, Host.trade_wrote htrade⟩

/-- A computation that is left out where an amount is zero enters what it enters otherwise. -/
theorem wrote_unlessZero {x : HostM (σ × Journal) Unit} {moves : List Transfer} {u : Unit}
    (hdone : (if amount.isZero then pure () else x : HostM (σ × Journal) Unit) s = (.ok u, t))
    (hx : x s = (.ok u, t) → Wrote s t moves) : Wrote s t (unlessZero amount moves) := by
  unfold unlessZero
  by_cases hzero : amount.isZero
  · rw [if_pos hzero] at hdone ⊢
    obtain ⟨-, rfl⟩ := HostM.pure_eq_ok.1 hdone
    exact .nothing rfl
  · rw [if_neg hzero] at hdone ⊢
    exact hx hdone

/-- An atomic payment enters what the payment does. -/
theorem payInterest_wrote {u : Unit} (hpay : payInterest h.journaled amount s = (.ok u, t)) :
    Wrote s t (unlessZero amount [.paidInterest .engine amount]) := by
  refine wrote_unlessZero hpay fun hpaid => ?_
  show Wrote (h.journaled.checkpoint s).2 t _
  exact .of_moving (Host.atomically_eq_ok.1 hpaid)

theorem redeem_wrote {p : Position} {proceeds : Amount}
    (hredeem : p.redeem h.journaled s = (.ok proceeds, t)) :
    Wrote s t (unlessZero p.custody.amount [.swapped .engine p.custody p.borrowAsset proceeds]) ∧
      (p.custody.amount.isZero → proceeds = .zero) := by
  unfold Position.redeem at hredeem
  unfold unlessZero
  by_cases hzero : p.custody.amount.isZero
  · rw [if_pos hzero] at hredeem ⊢
    obtain ⟨rfl, rfl⟩ := HostM.pure_eq_ok.1 hredeem
    exact ⟨.nothing rfl, fun _ => rfl⟩
  · rw [if_neg hzero] at hredeem ⊢
    exact ⟨Host.trade_wrote hredeem, fun h => absurd h hzero⟩

theorem repay_wrote {u : Unit} (hrepay : Position.repay h.journaled amount s = (.ok u, t)) :
    Wrote s t (unlessZero amount [.repaid .engine amount]) :=
  wrote_unlessZero hrepay fun hmove => .of_moving hmove

theorem forgive_wrote {p : Position} {u : Unit}
    (hforgive : p.forgive h.journaled amount s = (.ok u, t)) :
    Wrote s t (unlessZero amount [.wroteOff amount, .absorbed p.pool (p.loss amount)]) := by
  refine wrote_unlessZero hforgive fun hboth => ?_
  obtain ⟨_, st, hoff, habsorb⟩ := HostM.bind_eq_ok.1 hboth
  exact (Wrote.of_moving hoff).trans (.of_moving habsorb)

theorem payOut_wrote {p : Position} {u : Unit}
    (hpayOut : p.payOut h.journaled amount s = (.ok u, t)) :
    Wrote s t (unlessZero amount [.sent .engine p.owner ⟨p.borrowAsset, amount⟩]) :=
  wrote_unlessZero hpayOut fun hmove => .of_moving hmove

/-- What was undone is not in the journal. -/
theorem Host.Rests.wrote (hrests : h.journaled.Rests s t) : Wrote s t [] := by
  cases hrests with
  | same => exact .nothing rfl
  | checkpoint => exact .nothing rfl
  | restore reached => exact .nothing rfl

end

/-! ## The changes of the book -/

section

variable {σ κ : Type} {h : Host σ κ} {e : Engine} {s t : σ} {block : Block}

/-- The transfers of an opening. -/
def Opening.moves {r : OpenRequest} (o : Opening h r block e s t) (principal : Amount) :
    List Transfer :=
  (.sent r.owner .engine r.collateral ::
    if r.collateral.denom = r.borrowAsset then []
    else [.swapped .engine r.collateral r.borrowAsset o.worth]) ++
  unlessZero o.liabilities [.borrowed .engine o.liabilities] ++
  [.swapped .engine ⟨r.borrowAsset, principal⟩ r.shares o.custody]

/-- The transfer of a top-up. -/
def TopUp.moves {k : PositionKey} {coin : Coin} (_ : TopUp h k coin e s t) : List Transfer :=
  [.sent k.owner .engine coin]

/-- The transfers of a charge. -/
def Charge.moves {k : PositionKey} (o : Charge h k block e s t) : List Transfer :=
  unlessZero o.accrual.paid [.paidInterest .engine o.accrual.paid]

/-- The transfers of paying a position's funds out. -/
def Distribution.moves {p : Position} {policy : InterestPolicy}
    (d : Distribution h p policy s t) : List Transfer :=
  unlessZero p.custody.amount [.swapped .engine p.custody p.borrowAsset d.proceeds] ++
  unlessZero (d.debt.least d.funds) [.repaid .engine (d.debt.least d.funds)] ++
  unlessZero d.shortfall [.wroteOff d.shortfall, .absorbed p.pool (p.loss d.shortfall)] ++
  unlessZero d.payout [.sent .engine p.owner ⟨p.borrowAsset, d.payout⟩]

end

section

variable {σ κ : Type} {h : Host σ κ} {e : Engine} {s t : σ × Journal} {block : Block}

theorem Opening.wrote {r : OpenRequest} (o : Opening h.journaled r block e s t) :
    ∃ principal : Amount, principal.units = o.worth.units + o.liabilities.units ∧
      Wrote s t (o.moves principal) := by
  obtain ⟨principal, hprincipal, hjoin⟩ := join_wrote o.join_eq
  refine ⟨principal, hprincipal, ?_⟩
  have hcollect : Wrote s o.collected _ := (collect_wrote o.collect_eq).1
  exact (hcollect.trans (lever_wrote o.lever_eq)).trans hjoin

theorem Opening.worth_eq {r : OpenRequest} (o : Opening h.journaled r block e s t)
    (hsame : r.collateral.denom = r.borrowAsset) : o.worth = r.collateral.amount :=
  (collect_wrote o.collect_eq).2 hsame

/-- What an opening borrows is what was lent when its first entry was made. -/
theorem Opening.lending_mem {r : OpenRequest} (o : Opening h.journaled r block e s t) :
    ∃ x ∈ t.2, x.lending = r.borrowAsset := by
  obtain ⟨x, hx, hlending⟩ := collect_lending o.collect_eq
  refine ⟨x, ?_, hlending.trans (checkRequest_eq_ok o.check_eq).borrowAsset.symm⟩
  obtain ⟨principal, -, hjoin⟩ := join_wrote o.join_eq
  exact ((lever_wrote o.lever_eq).trans hjoin).isPrefix.subset hx

theorem TopUp.wrote {k : PositionKey} {coin : Coin} (o : TopUp h.journaled k coin e s t) :
    Wrote s t o.moves := by
  have hsend : Wrote (h.journaled.checkpoint s).2 t _ := .of_noting o.send_eq
  exact hsend

theorem Charge.wrote {k : PositionKey} (o : Charge h.journaled k block e s t) :
    Wrote s t o.moves := payInterest_wrote o.pay_eq

theorem Distribution.wrote {p : Position} {policy : InterestPolicy}
    (d : Distribution h.journaled p policy s t) : Wrote s t d.moves :=
  (((redeem_wrote d.redeem_eq).1.trans (repay_wrote d.repay_eq)).trans
    (forgive_wrote d.forgive_eq)).trans (payOut_wrote d.payOut_eq)

end

/-! ## Turns and requests -/

/-- What a turn enters comes behind what was entered before. -/
theorem Turn.journal_prefix {σ κ : Type} {h : Host σ κ} {op : Operation} {e e' : Engine}
    {s t : σ × Journal} {m d : Nat} (x : Turn h.journaled op e s m d e' t) : s.2 <+: t.2 := by
  cases x with
  | rest same rests => exact rests.wrote.isPrefix
  | track pool leverageMax enabled untracked => exact List.prefix_refl _
  | revise tracked revises => exact List.prefix_refl _
  | openPosition asked o =>
      obtain ⟨principal, -, hwrote⟩ := o.wrote
      exact hwrote.isPrefix
  | topUp asked o => exact o.wrote.isPrefix
  | charge o => exact o.wrote.isPrefix
  | close found o => exact o.paid.wrote.isPrefix

/-- What the engine does for a request it does on the journaled host as well. -/
theorem Engine.turns_of_request (e : Engine) (q : Request) :
    ∃ t, Turns q.host.journaled q.op e (q.state, []) (countOk Answer.openings (e.respond q))
      (countOk Answer.charges (e.respond q)) (e.next q) (t, e.committed q) := by
  -- the answer and the engine are the same on both hosts, so the numbers and ends are as well
  have hturns := perform_turns q.host.journaled e q.op (q.state, [])
  have herases := perform_erases q.host e q.op (q.state, [])
  have hanswer : e.respond q = (e.perform q.host.journaled q.op (q.state, [])).1 :=
    congrArg Prod.fst herases
  have hnext : e.next q = (e.perform q.host.journaled q.op (q.state, [])).2.1 :=
    congrArg (fun x => x.2.1) herases
  rw [← hanswer, ← hnext] at hturns
  exact ⟨_, hturns⟩

end LeveragedLp

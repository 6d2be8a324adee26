import LeveragedLp.Proofs.Runs

/-!
# The journal of a host

What the engine does with funds shows in the calls that the host makes for it, as far as they were
not undone. `Host.journaled` is a host that does what another host does and keeps a journal beside
its state: a call that moves funds and succeeds adds an entry, and returning to a checkpoint takes
the journal back to what it was there. So at the end of an operation the journal has its committed
calls, in their order (`Engine.committed`), and `Engine.journal` has those of a run.

Keeping the journal changes nothing else: without it, every operation does on the journaled host
what it does on the other (`perform_erases`).
-/

set_option autoImplicit false

namespace LeveragedLp

/-- What a call that moves funds did. -/
inductive Transfer where
  | sent (source target : Address) (coin : Coin)
  /-- A coin of an account was swapped for an amount of the asset that was asked for. -/
  | swapped (account : Address) (coin : Coin) (target : Denom) (out : Amount)
  | borrowed (account : Address) (amount : Amount)
  | repaid (account : Address) (amount : Amount)
  | paidInterest (account : Address) (amount : Amount)
  | wroteOff (amount : Amount)
  | absorbed (pool : UInt64) (coin : Coin)
deriving DecidableEq

/-- A call in a journal. -/
structure Entry where
  /-- The asset that was lent when the call was made. -/
  lending : Denom
  moved : Transfer
deriving DecidableEq

/-- The calls that stand, oldest first. -/
abbrev Journal := List Entry

namespace Host

variable {σ κ α : Type} (h : Host σ κ)

/-- A call that adds to the journal what it did, if it succeeds. -/
def noting (moved : α → Transfer) (call : σ → Except HostFault α × σ) (s : σ × Journal) :
    Except HostFault α × σ × Journal :=
  match call s.1 with
  | (.ok a, t) => (.ok a, t, s.2 ++ [⟨h.lendingDenom s.1, moved a⟩])
  | (.error fault, t) => (.error fault, t, s.2)

/-- The host's own route for a coin, for one that was handed out with the asset asked for in the
place of the route's target. -/
def ownRoute (s : σ) (coin : Coin) (route : SwapRoute) : SwapRoute :=
  (h.route s coin.denom route.target).getD route

/-- The host with a journal. Its routes name the asset that was asked for, so that a swap can be
entered with it; the host itself is handed its own routes. -/
def journaled : Host (σ × Journal) (κ × Journal) where
  route s source target := (h.route s.1 source target).map fun route => { route with target }
  estimateIn s coin route := h.estimateIn s.1 coin (h.ownRoute s.1 coin route)
  estimateOut s coin route := h.estimateOut s.1 coin route
  poolTvl s := h.poolTvl s.1
  poolTotalShares s := h.poolTotalShares s.1
  liquidityPools s := h.liquidityPools s.1
  price s := h.price s.1
  balance s := h.balance s.1
  lendingDenom s := h.lendingDenom s.1
  interestRate s := h.interestRate s.1
  available s := h.available s.1
  swap account coin route least s :=
    h.noting (.swapped account coin route.target)
      (h.swap account coin (h.ownRoute s.1 coin route) least) s
  send source target coin :=
    h.noting (fun _ => .sent source target coin) (h.send source target coin)
  borrow account amount := h.noting (fun _ => .borrowed account amount) (h.borrow account amount)
  repay account amount := h.noting (fun _ => .repaid account amount) (h.repay account amount)
  payInterest account amount :=
    h.noting (fun _ => .paidInterest account amount) (h.payInterest account amount)
  writeOff amount := h.noting (fun _ => .wroteOff amount) (h.writeOff amount)
  absorb pool coin := h.noting (fun _ => .absorbed pool coin) (h.absorb pool coin)
  checkpoint s := (((h.checkpoint s.1).1, s.2), (h.checkpoint s.1).2, s.2)
  restore snapshot s := (h.restore snapshot.1 s.1, snapshot.2)

end Host

namespace Engine

/-- The calls of an operation that were not undone. -/
def committed (e : Engine) (q : Request) : Journal :=
  (e.perform q.host.journaled q.op (q.state, [])).2.2.2

/-- The calls of a run that were not undone. -/
def journal : Engine → List Request → Journal
  | _, [] => []
  | e, q :: qs => e.committed q ++ (e.next q).journal qs

end Engine

/-! ## Erasing the journal -/

/-- Of what `view` shows of a state, the first computation does what the second does. -/
def HostM.Erases {τ σ α : Type} (view : τ → σ) (x : HostM τ α) (y : HostM σ α) : Prop :=
  ∀ s, y (view s) = ((x s).1, view (x s).2)

namespace HostM.Erases

variable {τ σ α β : Type} {view : τ → σ}

theorem pure (a : α) : Erases view (Pure.pure a) (Pure.pure a) := fun _ => rfl

theorem ofExcept (x : Except Fault α) : Erases view (HostM.ofExcept x) (HostM.ofExcept x) :=
  fun _ => rfl

theorem reading {f : τ → Except Fault α} {g : σ → Except Fault α} (h : ∀ s, f s = g (view s)) :
    Erases view (HostM.reading f) (HostM.reading g) := by
  intro s
  rw [reading_apply, reading_apply, h s]

theorem bind {x : HostM τ α} {y : HostM σ α} {f : α → HostM τ β} {g : α → HostM σ β}
    (hx : Erases view x y) (hf : ∀ a, Erases view (f a) (g a)) :
    Erases view (x >>= f) (y >>= g) := by
  intro s
  rw [bind_apply, bind_apply, hx s]
  rcases x s with ⟨_ | a, t⟩
  · rfl
  · exact hf a t

theorem ite {c : Prop} [Decidable c] {x x' : HostM τ α} {y y' : HostM σ α}
    (hx : Erases view x y) (hx' : Erases view x' y') :
    Erases view (if c then x else x') (if c then y else y') := by
  by_cases hc : c
  · rw [if_pos hc, if_pos hc]
    exact hx
  · rw [if_neg hc, if_neg hc]
    exact hx'

end HostM.Erases

/-- What a call does at one state, a movement by that call does as well. -/
theorem HostM.moving_fst {σ α : Type} {movement : Movement}
    {call : σ × Journal → Except HostFault α × σ × Journal} {call' : σ → Except HostFault α × σ}
    {s : σ × Journal} (h : call' s.1 = ((call s).1, (call s).2.1)) :
    HostM.moving movement call' s.1 =
      ((HostM.moving movement call s).1, (HostM.moving movement call s).2.1) := by
  unfold HostM.moving
  rw [h]
  rcases call s with ⟨_ | a, t⟩
  · rfl
  · rfl

section

variable {σ κ α : Type} {h : Host σ κ}

theorem Host.noting_fst (moved : α → Transfer) (call : σ → Except HostFault α × σ)
    (s : σ × Journal) : call s.1 = ((h.noting moved call s).1, (h.noting moved call s).2.1) := by
  unfold noting
  rcases call s.1 with ⟨_ | a, t⟩
  · rfl
  · rfl

/-! ## What is read through the journal -/

theorem Host.valueOf_journaled (s : σ × Journal) (amount : Amount) (source target : Denom) :
    h.journaled.valueOf s amount source target = h.valueOf s.1 amount source target := by
  unfold Host.valueOf
  by_cases hsame : source = target
  · rw [if_pos hsame, if_pos hsame]
  · rw [if_neg hsame, if_neg hsame]
    unfold Host.estimated journaled
    -- an estimate is asked for with the host's own route, which is found again
    cases hroute : h.route s.1 source target with
    | none => simp [hroute]
    | some route => simp [hroute, ownRoute]

theorem Host.healthOrMax_journaled (params : Params) (s : σ × Journal) (p : Position) :
    h.journaled.healthOrMax params s p = h.healthOrMax params s.1 p := by
  apply healthOrMax_congr
  funext amount source target
  exact valueOf_journaled s amount source target

/-- A movement is the same with a journal kept. -/
theorem Host.noting_erases (movement : Movement) (moved : α → Transfer)
    (call : σ → Except HostFault α × σ) :
    HostM.Erases Prod.fst (HostM.moving movement (h.noting moved call))
      (HostM.moving movement call) :=
  fun s => HostM.moving_fst (noting_fst moved call s)

theorem Host.trade_erases (coin : Coin) (target : Denom) (least : Amount) :
    HostM.Erases Prod.fst (h.journaled.trade coin target least) (h.trade coin target least) := by
  intro s
  unfold trade
  rw [HostM.bind_apply, HostM.bind_apply, HostM.reading_apply, HostM.reading_apply]
  cases hroute : h.route s.1 coin.denom target with
  | none =>
      have hjournaled : h.journaled.route s coin.denom target = none := by simp [journaled, hroute]
      rw [hjournaled]
      rfl
  | some route =>
      have hjournaled : h.journaled.route s coin.denom target = some { route with target } := by
        simp [journaled, hroute]
      -- the route that the swap is handed is looked up again, and it is the one found before
      have hown : h.ownRoute s.1 coin { route with target } = route := by simp [ownRoute, hroute]
      have hswap : h.swap .engine coin route least s.1 =
          ((h.journaled.swap .engine coin { route with target } least s).1,
            (h.journaled.swap .engine coin { route with target } least s).2.1) := by
        show _ = ((h.noting _ (h.swap .engine coin (h.ownRoute s.1 coin _) least) s).1,
          (h.noting _ (h.swap .engine coin (h.ownRoute s.1 coin _) least) s).2.1)
        rw [hown]
        exact noting_fst _ _ s
      rw [hjournaled]
      exact HostM.moving_fst hswap

end

/-! ## Erasing it from the computations of the engine -/

/-- Engine and host without the journal. -/
def plain {σ : Type} (st : Engine × σ × Journal) : Engine × σ := (st.1, st.2.1)

namespace EngineM

variable {σ κ α : Type} {h : Host σ κ}

theorem onHost_erases {x : HostM (σ × Journal) α} {y : HostM σ α}
    (hx : HostM.Erases Prod.fst x y) : HostM.Erases plain (onHost x) (onHost y) := by
  intro ⟨e, s⟩
  show ((y s.1).1, e, (y s.1).2) = _
  rw [hx s]
  rfl

theorem asking_erases {f : Engine → σ × Journal → Except Fault α} {g : Engine → σ → Except Fault α}
    (hf : ∀ e s, f e s = g e s.1) : HostM.Erases plain (asking f) (asking g) := by
  intro ⟨e, s⟩
  show (g e s.1, e, s.1) = (f e s, e, s.1)
  rw [hf e s]

theorem altering_erases (f : Engine → Engine) :
    HostM.Erases plain (altering f : EngineM (σ × Journal) Unit) (altering f) := fun _ => rfl

theorem allocate_erases :
    HostM.Erases plain (allocate : EngineM (σ × Journal) UInt64) allocate := fun _ => rfl

theorem atomically_erases {x : EngineM (σ × Journal) α} {y : EngineM σ α}
    (hx : HostM.Erases plain x y) :
    HostM.Erases plain (atomically h.journaled x) (atomically h y) := by
  intro ⟨e, s⟩
  show atomically h y (e, s.1) = _
  rw [atomically_apply, atomically_apply]
  -- both run from the checkpoint, and return to it together or not at all
  have hstep := hx (e, (h.journaled.checkpoint s).2)
  change y (e, (h.checkpoint s.1).2) = _ at hstep
  rw [hstep]
  rcases x (e, (h.journaled.checkpoint s).2) with ⟨_ | a, e', t⟩
  · rfl
  · rfl

end EngineM

namespace Engine

open EngineM

variable {σ κ : Type} {h : Host σ κ}

/-! ## Erasing it from the operations -/

theorem collect_erases (r : OpenRequest) :
    HostM.Erases Prod.fst (r.collect h.journaled) (r.collect h) :=
  .bind (Host.noting_erases _ _ _) fun _ => .ite (.pure _) (Host.trade_erases _ _ _)

theorem lever_erases (r : OpenRequest) (worth : Amount) :
    HostM.Erases Prod.fst (r.lever h.journaled worth) (r.lever h worth) := by
  refine .bind (.ofExcept _) fun liabilities => .ite (.pure _) (.bind ?_ fun _ => .pure _)
  exact .bind (.reading fun _ => rfl) fun _ => Host.noting_erases _ _ _

theorem join_erases (r : OpenRequest) (worth liabilities : Amount) :
    HostM.Erases Prod.fst (r.join h.journaled worth liabilities) (r.join h worth liabilities) :=
  .bind (.ofExcept _) fun _ => Host.trade_erases _ _ _

theorem expose_erases (pool : UInt64) (shares total : Amount) :
    HostM.Erases plain (expose pool shares total : EngineM (σ × Journal) Unit)
      (expose pool shares total) :=
  .bind (asking_erases fun _ _ => rfl) fun _ => .bind (.ofExcept _) fun _ =>
    .bind (altering_erases _) fun _ => .bind (.ofExcept _) fun _ =>
      .bind (altering_erases _) fun _ => asking_erases fun _ _ => rfl

theorem openPosition_erases (r : OpenRequest) (block : Block) :
    HostM.Erases plain (openPosition h.journaled r block) (openPosition h r block) := by
  refine atomically_erases (.bind (asking_erases fun _ _ => rfl) fun _ =>
    .bind (onHost_erases (collect_erases r)) fun worth =>
      .bind (onHost_erases (lever_erases r worth)) fun liabilities =>
        .bind (onHost_erases (join_erases r worth liabilities)) fun custody => ?_)
  refine .bind allocate_erases fun id => .bind (asking_erases fun e s => ?_) fun health => ?_
  · simp only [appraiseNew, Host.healthOrMax_journaled]
  · exact .bind (asking_erases fun _ _ => rfl) fun total => .bind (expose_erases _ _ _) fun _ =>
      .bind (altering_erases _) fun _ => .bind (altering_erases _) fun _ => .pure _

theorem addCollateral_erases (k : PositionKey) (coin : Coin) :
    HostM.Erases plain (addCollateral h.journaled k coin) (addCollateral h k coin) := by
  refine atomically_erases (.bind (asking_erases fun _ _ => rfl) fun p =>
    .bind (.ofExcept _) fun _ => .bind (onHost_erases (Host.noting_erases _ _ _)) fun _ =>
      .bind (.ofExcept _) fun p => ?_)
  refine .bind (asking_erases fun e s => Host.healthOrMax_journaled _ _ _) fun health => ?_
  exact .bind (altering_erases _) fun _ => .bind (altering_erases _) fun _ => .pure _

theorem chargeUp_journaled (e : Engine) (p : Position) (now : UInt64) (s : σ × Journal) :
    e.chargeUp h.journaled p now s = e.chargeUp h p now s.1 := rfl

theorem closingHealth_journaled (e : Engine) (p : Position) (reason : CloseReason)
    (s : σ × Journal) :
    e.closingHealth h.journaled p reason s = e.closingHealth h p reason s.1 := by
  simp only [closingHealth, Host.healthOrMax_journaled]

theorem redeem_erases (p : Position) :
    HostM.Erases Prod.fst (p.redeem h.journaled) (p.redeem h) :=
  .ite (.pure _) (Host.trade_erases _ _ _)

theorem redeem_journaled_fst (p : Position) (s : σ × Journal) :
    (p.redeem h.journaled s).1 = (p.redeem h s.1).1 := by
  rw [redeem_erases p s]

theorem distribute_erases (p : Position) (reason : CloseReason) (accrual : Accrual) :
    HostM.Erases plain (distribute h.journaled p reason accrual)
      (distribute h p reason accrual) := by
  have hrepay : ∀ amount,
      HostM.Erases Prod.fst (Position.repay h.journaled amount) (Position.repay h amount) :=
    fun _ => .ite (.pure _) (Host.noting_erases _ _ _)
  have hforgive : ∀ amount,
      HostM.Erases Prod.fst (p.forgive h.journaled amount) (p.forgive h amount) :=
    fun _ => .ite (.pure _) (.bind (Host.noting_erases _ _ _) fun _ => Host.noting_erases _ _ _)
  have hpayOut : ∀ amount,
      HostM.Erases Prod.fst (p.payOut h.journaled amount) (p.payOut h amount) :=
    fun _ => .ite (.pure _) (Host.noting_erases _ _ _)
  refine .bind (asking_erases fun _ _ => rfl) fun debt => .bind (onHost_erases (redeem_erases p))
    fun proceeds => .bind (.ofExcept _) fun funds => .bind (onHost_erases (hrepay _)) fun _ => ?_
  refine .bind (.ofExcept _) fun shortfall => .bind (onHost_erases (hforgive _)) fun _ => ?_
  exact .bind (altering_erases _) fun _ => .bind (.ofExcept _) fun payout =>
    .bind (onHost_erases (hpayOut _)) fun _ => .pure _

theorem unexpose_erases (p : Position) (total : Amount) :
    HostM.Erases plain (unexpose p total : EngineM (σ × Journal) Unit) (unexpose p total) :=
  .bind (asking_erases fun _ _ => rfl) fun _ => .bind (.ofExcept _) fun _ =>
    .bind (altering_erases _) fun _ => .bind (.ofExcept _) fun _ => altering_erases _

theorem settle_erases (p : Position) (reason : CloseReason) (block : Block) :
    HostM.Erases plain (settle h.journaled p reason block) (settle h p reason block) := by
  refine .bind (asking_erases fun _ _ => rfl) fun ⟨accrual, charged⟩ =>
    .bind (asking_erases fun e s => closingHealth_journaled e charged reason s) fun health => ?_
  refine .bind (distribute_erases _ _ _) fun settlement => .bind (asking_erases fun _ _ => rfl)
    fun total => .bind (unexpose_erases _ _) fun _ => ?_
  exact .bind (altering_erases _) fun _ => .bind (altering_erases _) fun _ => .pure _

theorem close_erases (k : PositionKey) (block : Block) :
    HostM.Erases plain (close h.journaled k block) (close h k block) :=
  atomically_erases (.bind (asking_erases fun _ _ => rfl) fun _ => settle_erases _ _ _)

theorem eligibility_journaled (e : Engine) (p : Position) (block : Block) (s : σ × Journal) :
    e.eligibility h.journaled p block s = e.eligibility h p block s.1 := by
  simp only [eligibility, chargeUp_journaled, Host.healthOrMax_journaled]

theorem forceClose_erases (k : PositionKey) (block : Block) :
    HostM.Erases plain (forceClose h.journaled k block) (forceClose h k block) := by
  refine .bind (asking_erases fun _ _ => rfl) fun p =>
    .bind (asking_erases fun e s => eligibility_journaled e p block s) fun eligible => ?_
  cases eligible with
  | healthy health => exact .pure _
  | close reason => exact .bind (atomically_erases (settle_erases _ _ _)) fun _ => .pure _

theorem sweepPosition_erases (k : PositionKey) (block : Block) :
    HostM.Erases plain (sweepPosition h.journaled k block) (sweepPosition h k block) := by
  refine .bind (asking_erases fun _ _ => rfl) fun p => .bind (asking_erases fun e s => ?_)
    fun reason => ?_
  · simp only [sweepReason, eligibility_journaled]
    rfl
  · cases reason with
    | none => exact .pure _
    | some reason => exact .bind (atomically_erases (settle_erases _ _ _)) fun _ => .pure _

theorem payInterest_erases (amount : Amount) :
    HostM.Erases Prod.fst (payInterest h.journaled amount) (payInterest h amount) := by
  refine .ite (.pure _) fun s => ?_
  have hpay := Host.noting_erases (h := h) .interestPayment (fun _ => .paidInterest .engine amount)
    (h.payInterest .engine amount) (h.journaled.checkpoint s).2
  change HostM.moving _ _ (h.checkpoint s.1).2 =
    ((HostM.moving _ (h.journaled.payInterest _ _) _).1,
      (HostM.moving _ (h.journaled.payInterest _ _) _).2.1) at hpay
  rw [Host.atomically_apply, Host.atomically_apply, hpay]
  rcases HostM.moving .interestPayment (h.journaled.payInterest .engine amount)
    (h.journaled.checkpoint s).2 with ⟨_ | _, t⟩
  · rfl
  · rfl

theorem planEpoch_journaled (e : Engine) (p : Position) (now : UInt64) (s : σ × Journal) :
    e.planEpoch h.journaled p now s = e.planEpoch h p now s.1 := by
  simp only [planEpoch, paidWorth, Host.valueOf_journaled, Host.healthOrMax_journaled]
  rfl

theorem accruePosition_erases (k : PositionKey) (block : Block) :
    HostM.Erases plain (accruePosition h.journaled k block) (accruePosition h k block) :=
  .bind (asking_erases fun _ _ => rfl) fun p =>
    .bind (asking_erases fun e s => planEpoch_journaled e p block.time s) fun ⟨_, _⟩ =>
      .bind (onHost_erases (payInterest_erases _)) fun _ => .bind (altering_erases _) fun _ =>
        .pure _

/-- What a step from an engine and a state did, without the journal. -/
def unjournaled {ω : Type} (x : ω × Engine × σ × Journal) : ω × Engine × σ := (x.1, plain x.2)

theorem accrueVisit_erases (k : PositionKey) (block : Block) (e : Engine) (s : σ × Journal) :
    accrueVisit h block k e s.1 = unjournaled (accrueVisit h.journaled block k e s) := by
  have hvisit := accruePosition_erases (h := h) k block (e, s)
  change accruePosition h k block (e, s.1) = _ at hvisit
  unfold accrueVisit
  rw [hvisit]
  rcases accruePosition h.journaled k block (e, s) with ⟨_ | _, e', t⟩
  · rfl
  · rfl

theorem sweepVisit_erases (k : PositionKey) (block : Block) (e : Engine) (s : σ × Journal) :
    sweepVisit h block k e s.1 = unjournaled (sweepVisit h.journaled block k e s) :=
  sweepPosition_erases k block (e, s)

/-- Visits see the same as long as each of them does. -/
theorem visitEach_erases {α : Type}
    {visit : PositionKey → Engine → σ × Journal → Except Fault α × Engine × σ × Journal}
    {visit' : PositionKey → Engine → σ → Except Fault α × Engine × σ}
    (hvisit : ∀ k e s, visit' k e s.1 = unjournaled (visit k e s)) (ks : List PositionKey)
    (e : Engine) (s : σ × Journal) :
    visitEach visit' ks e s.1 = unjournaled (visitEach visit ks e s) := by
  induction ks generalizing e s with
  | nil => rfl
  | cons k ks ih =>
      -- the rest of the pass goes on from where the first visit left the journal
      have hfirst := hvisit k e s
      have hrest := ih (visit k e s).2.1 (visit k e s).2.2
      unfold visitEach
      rw [hfirst]
      change ((k, (visit k e s).1) :: (visitEach visit' ks _ (visit k e s).2.2.1).1,
        (visitEach visit' ks _ (visit k e s).2.2.1).2) = _
      rw [hrest]
      rfl

theorem accrueEpoch_erases (block : Block) (e : Engine) (s : σ × Journal) :
    accrueEpoch h e block s.1 = unjournaled (accrueEpoch h.journaled e block s) := by
  have hvisits := visitEach_erases (fun k => accrueVisit_erases (h := h) k block)
    e.book.positions.keys e s
  unfold accrueEpoch
  rw [hvisits]
  by_cases hdone : e.book.lastEpoch = some (e.params.epochOf block.height)
  · simp only [hdone, if_true]
    rfl
  · simp only [hdone, if_false]
    rfl

theorem beginBlock_erases (block : Block) (e : Engine) (s : σ × Journal) :
    beginBlock h e block s.1 = unjournaled (beginBlock h.journaled e block s) := by
  have hsweep := visitEach_erases fun k => sweepVisit_erases (h := h) k block
  unfold beginBlock
  by_cases hboundary : e.params.isEpochBoundary block.height
  · rw [if_pos hboundary, if_pos hboundary, accrueEpoch_erases]
    have hpass := hsweep (accrueEpoch h.journaled e block s).2.1.book.positions.keys
      (accrueEpoch h.journaled e block s).2.1 (accrueEpoch h.journaled e block s).2.2
    simp only [unjournaled, plain] at hpass ⊢
    rw [hpass]
  · rw [if_neg hboundary, if_neg hboundary]
    have hpass := hsweep e.book.positions.keys e s
    simp only [unjournaled, plain] at hpass ⊢
    rw [hpass]

/-- The answer of a computation on engine and host does not show the journal. -/
theorem answerM_erases {α : Type} {x : EngineM (σ × Journal) α} {y : EngineM σ α}
    (hx : HostM.Erases plain x y) (form : α → Answer) (e : Engine) (s : σ × Journal) :
    e.answerM y form s.1 = unjournaled (e.answerM x form s) := by
  have hstep := hx (e, s)
  change y (e, s.1) = _ at hstep
  unfold answerM
  rw [hstep]
  rfl

theorem answer_erases (x : Except Fault Engine) (e : Engine) (s : σ × Journal) :
    e.answer x s.1 = unjournaled (e.answer x s) := by
  cases x with
  | error _ => rfl
  | ok _ => rfl

/-- **Keeping the journal changes nothing.** Every operation does on the journaled host what it
does on the host itself. -/
theorem perform_erases (h : Host σ κ) (e : Engine) (op : Operation) (s : σ × Journal) :
    e.perform h op s.1 = unjournaled (e.perform h.journaled op s) := by
  -- only operations that ask the host for a value or a movement can tell the two hosts apart
  cases op with
  | openPosition r block => exact answerM_erases (openPosition_erases r block) _ e s
  | addCollateral k coin => exact answerM_erases (addCollateral_erases k coin) _ e s
  | close k block => exact answerM_erases (close_erases k block) _ e s
  | forceClose k block => exact answerM_erases (forceClose_erases k block) _ e s
  | accrueEpoch block =>
      simp only [perform]
      rw [accrueEpoch_erases]
      rfl
  | beginBlock block =>
      simp only [perform]
      rw [beginBlock_erases]
      rfl
  | updateParams params => exact answer_erases _ e s
  | createPool pool leverageMax enabled => exact answer_erases _ e s
  | setPoolEnabled pool enabled => exact answer_erases _ e s
  | closePool pool => exact answer_erases _ e s
  | updateLeverageMax pool leverageMax => exact answer_erases _ e s
  | registerAmmPools leverageMax => rfl
  | drainEvents => rfl

end Engine

end LeveragedLp

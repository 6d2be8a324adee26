import LeveragedLp.Proofs.Runs
import Mathlib.Logic.Relation

/-!
# Refused operations change nothing

An operation that is refused leaves the engine and its host as they were, however many funds had
moved and however much was on the book when it failed. What it takes is that the changes made under
`EngineM.atomically` can be undone (`EngineM.Undoable`). The parameters are kept and events only
added, since the book is put back whole but the events are only cut to their old number; and the
host is changed by calls that move funds and by nothing else (`Host.Reaches`), since it has to find
its way back to a checkpoint only from where its own calls have led. What it then comes back to
(`Host.Rests`) is the state before, if restoring undoes those calls (`Host.Restores`).
`refused_operation_changes_nothing` is the result.
-/

set_option autoImplicit false

namespace LeveragedLp

namespace Host

variable {σ κ ω : Type}

/-- A call that moves funds leads from one state to another, whether it succeeds or not. -/
inductive Calls (h : Host σ κ) : σ → σ → Prop
  | swap (account : Address) (coin : Coin) (route : SwapRoute) (least : Amount) (s : σ) :
      Calls h s (h.swap account coin route least s).2
  | send (source target : Address) (coin : Coin) (s : σ) :
      Calls h s (h.send source target coin s).2
  | borrow (account : Address) (amount : Amount) (s : σ) : Calls h s (h.borrow account amount s).2
  | repay (account : Address) (amount : Amount) (s : σ) : Calls h s (h.repay account amount s).2
  | payInterest (account : Address) (amount : Amount) (s : σ) :
      Calls h s (h.payInterest account amount s).2
  | writeOff (amount : Amount) (s : σ) : Calls h s (h.writeOff amount s).2
  | absorb (pool : UInt64) (coin : Coin) (s : σ) : Calls h s (h.absorb pool coin s).2

/-- Calls in a row, none included, lead from one state to another. -/
def Reaches (h : Host σ κ) : σ → σ → Prop := Relation.ReflTransGen h.Calls

/-- From `s` to `t` nothing happened that still stands: nothing at all, a checkpoint, or calls that
were undone by going back to the checkpoint before them. -/
inductive Rests (h : Host σ κ) : σ → σ → Prop
  | same (s : σ) : Rests h s s
  | checkpoint (s : σ) : Rests h s (h.checkpoint s).2
  | restore {s t : σ} (reached : h.Reaches (h.checkpoint s).2 t) :
      Rests h s (h.restore (h.checkpoint s).1 t)

/-- Taking a checkpoint changes nothing, and restoring it gives back the state at the checkpoint
from wherever calls have led since. Both are said of what `view` shows of a state: with `id` of the
state itself, with less for a host that, say, counts its checkpoints or keeps a log of what to
undo. -/
structure Restores (h : Host σ κ) (view : σ → ω) : Prop where
  checkpoint : ∀ s, view (h.checkpoint s).2 = view s
  restore : ∀ s t, h.Reaches (h.checkpoint s).2 t → view (h.restore (h.checkpoint s).1 t) = view s

theorem Restores.view_eq {h : Host σ κ} {view : σ → ω} (hr : h.Restores view) {s t : σ}
    (hst : h.Rests s t) : view t = view s := by
  cases hst with
  | same => rfl
  | checkpoint => exact hr.checkpoint s
  | restore reached => exact hr.restore s _ reached

end Host

/-! ## Computations that lead along a relation -/

/-- Whatever its result, the computation leads from any state to one that is related to it. -/
def HostM.Along {σ α : Type} (R : σ → σ → Prop) (x : HostM σ α) : Prop := ∀ s, R s (x s).2

namespace HostM.Along

variable {σ α β : Type} {R : σ → σ → Prop}

theorem ite {c : Prop} [Decidable c] {x y : HostM σ α} (hx : Along R x) (hy : Along R y) :
    Along R (if c then x else y) := by
  by_cases hc : c
  · rw [if_pos hc]
    exact hx
  · rw [if_neg hc]
    exact hy

variable [IsPreorder σ R]

theorem pure (a : α) : Along R (Pure.pure a : HostM σ α) := refl_of R

theorem ofExcept (x : Except Fault α) : Along R (HostM.ofExcept x : HostM σ α) := refl_of R

theorem reading (f : σ → Except Fault α) : Along R (HostM.reading f) := refl_of R

/-- The second computation goes on where the first has led, if that one succeeds. -/
theorem bind {x : HostM σ α} {f : α → HostM σ β} (hx : Along R x) (hf : ∀ a, Along R (f a)) :
    Along R (x >>= f) := by
  intro s
  have hfirst := hx s
  rw [bind_apply]
  revert hfirst
  rcases x s with ⟨_ | a, t⟩
  · exact id
  · intro hfirst
    exact trans_of R hfirst (hf a t)

end HostM.Along

/-! ## What the engine does to the host -/

section

open HostM

variable {σ κ α : Type} {h : Host σ κ}

instance : IsPreorder σ h.Reaches := inferInstanceAs (IsPreorder σ (Relation.ReflTransGen h.Calls))

/-- A movement is a call. -/
theorem HostM.Along.moving {movement : Movement} {call : σ → Except HostFault α × σ}
    (hcall : ∀ s, h.Calls s (call s).2) : Along h.Reaches (HostM.moving movement call) := by
  intro s
  have hlast : (HostM.moving movement call s).2 = (call s).2 := by
    unfold HostM.moving
    rcases call s with ⟨_ | a, t⟩
    · rfl
    · rfl
  rw [hlast]
  exact .single (hcall s)

/-- What fails on the host alone is undone as well. -/
theorem Host.rests_atomically {x : HostM σ α} (hx : Along h.Reaches x) {s : σ} {fault : Fault}
    (hfailed : (h.atomically x s).1 = .error fault) : h.Rests s (h.atomically x s).2 := by
  rw [atomically_apply] at hfailed ⊢
  have hreached := hx (h.checkpoint s).2
  revert hfailed hreached
  rcases x (h.checkpoint s).2 with ⟨_ | a, t⟩
  · exact fun _ hreached => .restore hreached
  · intro hfailed
    cases hfailed

theorem Host.trade_reaches (coin : Coin) (target : Denom) (least : Amount) :
    Along h.Reaches (h.trade coin target least) :=
  .bind (.reading _) fun route => .moving (.swap .engine coin route least)

theorem OpenRequest.collect_reaches (r : OpenRequest) : Along h.Reaches (r.collect h) :=
  .bind (.moving (.send r.owner .engine r.collateral)) fun _ =>
    .ite (.pure _) (Host.trade_reaches _ _ _)

theorem OpenRequest.lever_reaches (r : OpenRequest) (worth : Amount) :
    Along h.Reaches (r.lever h worth) := by
  refine .bind (.ofExcept _) fun liabilities => .ite (.pure _) (.bind ?_ fun _ => .pure _)
  exact .bind (.reading _) fun _ => .moving (.borrow .engine liabilities)

theorem OpenRequest.join_reaches (r : OpenRequest) (worth liabilities : Amount) :
    Along h.Reaches (r.join h worth liabilities) :=
  .bind (.ofExcept _) fun _ => Host.trade_reaches _ _ _

theorem Position.redeem_reaches (p : Position) : Along h.Reaches (p.redeem h) :=
  .ite (.pure _) (Host.trade_reaches _ _ _)

theorem Position.repay_reaches (amount : Amount) : Along h.Reaches (Position.repay h amount) :=
  .ite (.pure _) (.moving (.repay .engine amount))

theorem Position.forgive_reaches (p : Position) (amount : Amount) :
    Along h.Reaches (p.forgive h amount) :=
  .ite (.pure _) <| .bind (.moving (.writeOff amount)) fun _ =>
    .moving (.absorb p.pool (p.loss amount))

theorem Position.payOut_reaches (p : Position) (amount : Amount) :
    Along h.Reaches (p.payOut h amount) :=
  .ite (.pure _) (.moving (.send .engine p.owner ⟨p.borrowAsset, amount⟩))

end

namespace EngineM

variable {σ κ α β : Type} {h : Host σ κ}

/-! ## Changes that can be undone -/

/-- What was changed on the way from one state to another can be undone: the parameters are the
same, events were only added, and calls led from the one host to the other. -/
structure Undoable (h : Host σ κ) (st st' : Engine × σ) : Prop where
  params : st'.1.params = st.1.params
  events : st.1.events <+: st'.1.events
  host : h.Reaches st.2 st'.2

instance : IsPreorder (Engine × σ) (Undoable h) where
  refl st := ⟨rfl, List.prefix_refl st.1.events, refl_of h.Reaches st.2⟩
  trans _ _ _ x y :=
    ⟨y.params.trans x.params, x.events.trans y.events, trans_of h.Reaches x.host y.host⟩

/-- The book is put back whole, so it may have become any other. -/
theorem Undoable.of_book (st : Engine × σ) (b : Book) :
    Undoable h st ({ st.1 with book := b }, st.2) :=
  ⟨rfl, List.prefix_refl st.1.events, refl_of h.Reaches st.2⟩

end EngineM

namespace HostM.Along

open EngineM (Undoable)

variable {σ κ α : Type} {h : Host σ κ}

theorem asking (f : Engine → σ → Except Fault α) : Along (Undoable h) (EngineM.asking f) :=
  refl_of (Undoable h)

theorem onHost {x : HostM σ α} (hx : Along h.Reaches x) : Along (Undoable h) (EngineM.onHost x) :=
  fun st => ⟨rfl, List.prefix_refl st.1.events, hx st.2⟩

theorem allocate : Along (Undoable h) (EngineM.allocate : EngineM σ UInt64) :=
  fun st => .of_book st st.1.book.allocate.2

theorem altering_book (f : Engine → Book) :
    Along (Undoable h) (EngineM.altering fun e => { e with book := f e }) :=
  fun st => .of_book st (f st.1)

theorem emitAll (events : List Event) :
    Along (Undoable h) (EngineM.altering fun e => e.emitAll events) :=
  fun st => ⟨rfl, List.prefix_append st.1.events events, refl_of h.Reaches st.2⟩

theorem emit (event : Event) : Along (Undoable h) (EngineM.altering fun e => e.emit event) :=
  emitAll [event]

end HostM.Along

namespace EngineM

variable {σ κ α β : Type} {h : Host σ κ}

/-! ## Computations that leave nothing behind when they fail -/

/-- Where the computation fails, the engine is as before, and nothing stands of what was done to
the host. -/
def FailsCleanly (h : Host σ κ) (x : EngineM σ α) : Prop :=
  ∀ e s fault e' t, x (e, s) = (.error fault, e', t) → e' = e ∧ h.Rests s t

/-- The parameters never changed, the book is put back, cutting the events to their old number
leaves the old events, and the host goes back to the checkpoint. -/
theorem failsCleanly_atomically {x : EngineM σ α} (hx : HostM.Along (Undoable h) x) :
    FailsCleanly h (atomically h x) := by
  intro e s fault e' t hfault
  rw [atomically_apply] at hfault
  have hundo := hx (e, (h.checkpoint s).2)
  revert hundo hfault
  rcases x (e, (h.checkpoint s).2) with ⟨_ | a, e₁, s₁⟩
  · intro hfault hundo
    cases hfault
    refine ⟨?_, .restore hundo.host⟩
    -- the book is the old one, and the old events are a prefix of the new ones
    show ({ e₁ with book := e.book, events := e₁.events.take e.events.length } : Engine) = e
    rw [← List.prefix_iff_eq_take.1 hundo.events, hundo.params]
  · intro hfault
    cases hfault

namespace FailsCleanly

theorem pure (a : α) : FailsCleanly h (Pure.pure a : EngineM σ α) := by
  intro e s fault e' t hfault
  cases hfault

theorem asking_bind {f : Engine → σ → Except Fault α} {g : α → EngineM σ β}
    (hg : ∀ a, FailsCleanly h (g a)) : FailsCleanly h (asking f >>= g) := by
  intro e s fault e' t hfault
  rw [HostM.bind_apply, asking_apply] at hfault
  cases hf : f e s with
  | error _ =>
      rw [hf] at hfault
      cases hfault
      exact ⟨rfl, .same s⟩
  | ok a =>
      rw [hf] at hfault
      exact hg a e s fault e' t hfault

/-- What never fails may follow. -/
theorem bind {x : EngineM σ α} {g : α → EngineM σ β} (hx : FailsCleanly h x)
    (hg : ∀ a st, (g a st).1.isOk = true) : FailsCleanly h (x >>= g) := by
  intro e s fault e' t hfault
  rw [HostM.bind_apply] at hfault
  rcases hres : x (e, s) with ⟨cause | a, st⟩
  · rw [hres] at hfault
    cases hfault
    exact hx e s fault e' t hres
  · rw [hres] at hfault
    change g a st = _ at hfault
    have hok := hg a st
    rw [hfault] at hok
    cases hok

end FailsCleanly

end EngineM

namespace Engine

open EngineM

variable {σ κ : Type} {h : Host σ κ}

/-! ## The operations that move funds -/

theorem expose_undoable (pool : UInt64) (shares total : Amount) :
    HostM.Along (Undoable h) (expose pool shares total) :=
  .bind (.asking _) fun _ => .bind (.ofExcept _) fun _ => .bind (.altering_book _) fun _ =>
    .bind (.ofExcept _) fun _ => .bind (.altering_book _) fun _ => .asking _

theorem unexpose_undoable (p : Position) (total : Amount) :
    HostM.Along (Undoable h) (unexpose p total) :=
  .bind (.asking _) fun _ => .bind (.ofExcept _) fun _ => .bind (.altering_book _) fun _ =>
    .bind (.ofExcept _) fun _ => .altering_book _

theorem distribute_undoable (p : Position) (reason : CloseReason) (accrual : Accrual) :
    HostM.Along (Undoable h) (distribute h p reason accrual) := by
  refine .bind (.asking _) fun debt => .bind (.onHost p.redeem_reaches) fun proceeds =>
    .bind (.ofExcept _) fun funds => .bind (.onHost (Position.repay_reaches _)) fun _ => ?_
  exact .bind (.ofExcept _) fun shortfall => .bind (.onHost (p.forgive_reaches _)) fun _ =>
    .bind (.emitAll _) fun _ => .bind (.ofExcept _) fun payout =>
      .bind (.onHost (p.payOut_reaches _)) fun _ => .pure _

theorem settle_undoable (p : Position) (reason : CloseReason) (block : Block) :
    HostM.Along (Undoable h) (settle h p reason block) :=
  .bind (.asking _) fun _ => .bind (.asking _) fun _ => .bind (distribute_undoable _ _ _) fun _ =>
    .bind (.asking _) fun _ => .bind (unexpose_undoable _ _) fun _ =>
      .bind (.altering_book _) fun _ => .bind (.emit _) fun _ => .pure _

theorem openPosition_failsCleanly (r : OpenRequest) (block : Block) :
    FailsCleanly h (openPosition h r block) := by
  refine failsCleanly_atomically ?_
  -- funds move first, then the book changes, and the event comes before the record
  refine .bind (.asking _) fun _ => .bind (.onHost r.collect_reaches) fun worth =>
    .bind (.onHost (r.lever_reaches worth)) fun liabilities =>
      .bind (.onHost (r.join_reaches worth liabilities)) fun _ => ?_
  exact .bind .allocate fun _ => .bind (.asking _) fun _ => .bind (.asking _) fun _ =>
    .bind (expose_undoable _ _ _) fun _ => .bind (.emit _) fun _ =>
      .bind (.altering_book _) fun _ => .pure _

theorem addCollateral_failsCleanly (k : PositionKey) (coin : Coin) :
    FailsCleanly h (addCollateral h k coin) := by
  refine failsCleanly_atomically ?_
  have hsend : HostM.Along h.Reaches (HostM.moving .topUp (h.send k.owner .engine coin)) :=
    .moving (.send k.owner .engine coin)
  exact .bind (.asking _) fun _ => .bind (.ofExcept _) fun _ => .bind (.onHost hsend) fun _ =>
    .bind (.ofExcept _) fun _ => .bind (.asking _) fun _ => .bind (.emit _) fun _ =>
      .bind (.altering_book _) fun _ => .pure _

theorem close_failsCleanly (k : PositionKey) (block : Block) :
    FailsCleanly h (close h k block) :=
  failsCleanly_atomically <| .bind (.asking _) fun _ => settle_undoable _ _ _

/-- Judging a position only reads; the settlement that may follow is atomic. -/
theorem forceClose_failsCleanly (k : PositionKey) (block : Block) :
    FailsCleanly h (forceClose h k block) := by
  refine .asking_bind fun p => .asking_bind fun eligible => ?_
  cases eligible with
  | healthy health => exact .pure _
  | close reason => exact .bind (failsCleanly_atomically (settle_undoable _ _ _)) fun _ _ => rfl

/-- The same of a visit in the sweep of a block. -/
theorem sweepPosition_failsCleanly (k : PositionKey) (block : Block) :
    FailsCleanly h (sweepPosition h k block) := by
  refine .asking_bind fun p => .asking_bind fun reason => ?_
  cases reason with
  | none => exact .pure _
  | some reason => exact .bind (failsCleanly_atomically (settle_undoable _ _ _)) fun _ _ => rfl

theorem payInterest_failsCleanly (amount : Amount) :
    FailsCleanly h (onHost (payInterest h amount)) := by
  intro e s fault e' t hfault
  rw [onHost_apply] at hfault
  obtain ⟨hfailed, hst⟩ := Prod.mk.inj hfault
  obtain ⟨rfl, rfl⟩ := Prod.mk.inj hst
  refine ⟨rfl, ?_⟩
  unfold payInterest at hfailed ⊢
  split at hfailed
  · cases hfailed
  · next hsome =>
    rw [if_neg hsome]
    exact Host.rests_atomically (.moving (.payInterest .engine amount)) hfailed

/-- An accrual pays only what was planned, and files the record only after the payment. -/
theorem accruePosition_failsCleanly (k : PositionKey) (block : Block) :
    FailsCleanly h (accruePosition h k block) :=
  .asking_bind fun _ => .asking_bind fun ⟨accrual, _⟩ =>
    .bind (payInterest_failsCleanly accrual.paid) fun _ _ => rfl

/-! ## The operations of the operators -/

theorem createPool_of_untracked {e : Engine} {pool : UInt64} {leverageMax : Decimal}
    {enabled : Bool} (hnew : (e.book.pool? pool).isSome = false) :
    e.createPool pool leverageMax enabled =
      (checkLeverageMax leverageMax).map fun _ => e.withPool (.fresh pool leverageMax enabled) := by
  unfold createPool
  rw [hnew]
  cases checkLeverageMax leverageMax <;> rfl

/-- With a limit that is allowed, every pool of a list can be tracked. -/
theorem trackPools_isOk {leverageMax : Decimal} (hmax : checkLeverageMax leverageMax = .ok ())
    (pools : List UInt64) (e : Engine) : (trackPools leverageMax pools e).1.isOk = true := by
  induction pools generalizing e with
  | nil => rfl
  | cons pool pools ih =>
      unfold trackPools
      split
      · exact ih e
      · next hnew =>
        rw [createPool_of_untracked (by simpa using hnew), hmax]
        have hrest := ih (e.withPool (.fresh pool leverageMax false))
        revert hrest
        simp only [Except.map]
        cases (trackPools leverageMax pools (e.withPool (.fresh pool leverageMax false))).1 with
        | error _ => exact id
        | ok _ => exact fun _ => rfl

/-- A limit that is not allowed is refused at the first pool that is not tracked yet, when none
was tracked anew. -/
theorem trackPools_of_error {leverageMax : Decimal} {pools : List UInt64} {e : Engine}
    {fault : Fault} (hfault : (trackPools leverageMax pools e).1 = .error fault) :
    (trackPools leverageMax pools e).2 = e := by
  cases hmax : checkLeverageMax leverageMax with
  | ok _ =>
      -- then nothing would have failed
      have hok := trackPools_isOk hmax pools e
      rw [hfault] at hok
      cases hok
  | error cause =>
      clear hfault
      induction pools with
      | nil => rfl
      | cons pool pools ih =>
          unfold trackPools
          split
          · exact ih
          · next hnew =>
            rw [createPool_of_untracked (by simpa using hnew), hmax]
            rfl

end Engine

/-! ## Refusals -/

/-- Whether an answer says that nothing was done: a fault does, and so does the answer that a
position is not eligible for a forced close. -/
def isRefusal : Except Fault Answer → Bool
  | .error _ => true
  | .ok (.forceClose (.notEligible _)) => true
  | .ok _ => false

namespace Engine

open EngineM

variable {σ κ : Type} {h : Host σ κ}

theorem answerM_refused {α : Type} {x : EngineM σ α} {form : α → Answer} {e : Engine} {s : σ}
    (hx : FailsCleanly h x) (hform : ∀ a, isRefusal (.ok (form a)) = false)
    (hrefused : isRefusal (e.answerM x form s).1) :
    (e.answerM x form s).2.1 = e ∧ h.Rests s (e.answerM x form s).2.2 := by
  unfold answerM at hrefused ⊢
  rcases hres : x (e, s) with ⟨fault | a, e', t⟩
  · exact hx e s fault e' t hres
  · rw [hres] at hrefused
    exact absurd hrefused (by simp [Except.map, hform])

theorem answer_refused {e : Engine} {x : Except Fault Engine} {s : σ}
    (hrefused : isRefusal (e.answer x s).1) : (e.answer x s).2 = (e, s) := by
  cases x with
  | error _ => rfl
  | ok _ => cases hrefused

theorem registerAmmPools_refused {leverageMax : Decimal} {e : Engine} {s : σ}
    (hrefused : isRefusal (e.perform h (.registerAmmPools leverageMax) s).1) :
    (e.perform h (.registerAmmPools leverageMax) s).2 = (e, s) := by
  simp only [perform, registerAmmPools] at hrefused ⊢
  cases hcreated : (trackPools leverageMax ((h.liquidityPools s).map PoolListing.id) e).1 with
  | error fault => rw [trackPools_of_error hcreated]
  | ok created =>
      rw [hcreated] at hrefused
      cases hrefused

/-- Where a forced close says that the position is not eligible, nothing was even begun. -/
theorem forceClose_notEligible {k : PositionKey} {block : Block} {e e' : Engine} {s t : σ}
    {health : Decimal}
    (hforce : forceClose h k block (e, s) = (.ok (.notEligible health), e', t)) :
    e' = e ∧ t = s := by
  simp only [forceClose, asking_bind_eq_ok] at hforce
  obtain ⟨p, -, eligible, -, hforce⟩ := hforce
  cases eligible with
  | healthy _ =>
      cases hforce
      exact ⟨rfl, rfl⟩
  | close reason =>
      obtain ⟨settlement, u, -, hlast⟩ := HostM.bind_eq_ok.1 hforce
      cases hlast

theorem forceClose_refused {k : PositionKey} {block : Block} {e : Engine} {s : σ}
    (hrefused : isRefusal (e.answerM (forceClose h k block) .forceClose s).1) :
    (e.answerM (forceClose h k block) .forceClose s).2.1 = e ∧
      h.Rests s (e.answerM (forceClose h k block) .forceClose s).2.2 := by
  unfold answerM at hrefused ⊢
  rcases hforce : forceClose h k block (e, s) with ⟨fault | outcome, e', t⟩
  · exact forceClose_failsCleanly k block e s fault e' t hforce
  · cases outcome with
    | closed settlement =>
        rw [hforce] at hrefused
        cases hrefused
    | notEligible health =>
        obtain ⟨rfl, rfl⟩ := forceClose_notEligible hforce
        exact ⟨rfl, .same t⟩

theorem rests_of_eq {e : Engine} {s : σ} {st : Engine × σ} (hst : st = (e, s)) :
    st.1 = e ∧ h.Rests s st.2 := by
  rw [hst]
  exact ⟨rfl, .same s⟩

/-- A refused operation leaves the engine as it was and lets the host rest. -/
theorem perform_refused {e : Engine} {op : Operation} {s : σ}
    (hrefused : isRefusal (e.perform h op s).1) :
    (e.perform h op s).2.1 = e ∧ h.Rests s (e.perform h op s).2.2 := by
  -- the operators' changes are made whole or not at all, those that move funds are undone
  cases op with
  | openPosition r block =>
      exact answerM_refused (openPosition_failsCleanly r block) (fun _ => rfl) hrefused
  | addCollateral k coin =>
      exact answerM_refused (addCollateral_failsCleanly k coin) (fun _ => rfl) hrefused
  | close k block =>
      exact answerM_refused (close_failsCleanly k block) (fun _ => rfl) hrefused
  | forceClose k block => exact forceClose_refused hrefused
  | accrueEpoch block => cases hrefused
  | beginBlock block => cases hrefused
  | updateParams params => exact rests_of_eq (answer_refused hrefused)
  | createPool pool leverageMax enabled => exact rests_of_eq (answer_refused hrefused)
  | setPoolEnabled pool enabled => exact rests_of_eq (answer_refused hrefused)
  | closePool pool => exact rests_of_eq (answer_refused hrefused)
  | updateLeverageMax pool leverageMax => exact rests_of_eq (answer_refused hrefused)
  | registerAmmPools leverageMax => exact rests_of_eq (registerAmmPools_refused hrefused)
  | drainEvents => cases hrefused

/-- **All or nothing.** An operation that answers with a fault, or that a position is not eligible
for a forced close, leaves the whole engine as it was, and leaves the host as it was in all that
restoring a checkpoint restores. -/
theorem refused_operation_changes_nothing {ω : Type} {view : σ → ω} (hr : h.Restores view)
    (e : Engine) (op : Operation) (s : σ) (hrefused : isRefusal (e.perform h op s).1) :
    (e.perform h op s).2.1 = e ∧ view (e.perform h op s).2.2 = view s :=
  ⟨(perform_refused hrefused).1, hr.view_eq (perform_refused hrefused).2⟩

/-- What the chain in memory is apart from its count of checkpoints. -/
def uncounted (c : Chain) : Chain := { c with checkpoints := 0 }

theorem host_restores : Chain.host.Restores uncounted where
  checkpoint _ := rfl
  restore _ _ _ := rfl

/-- Alice's shares were swapped back and her debt was repaid when the repayment reported a
failure; none of it is left. -/
theorem late_failure_of_repay_is_undone :
    let chain := Sample.opened.2.fail ⟨.repay, .rejected "closed for the day", true⟩
    let refused := Sample.opened.1.perform Chain.host (.close ⟨Sample.alice, 1⟩ ⟨2, 7884000⟩) chain
    isRefusal refused.1 ∧ refused.2.1 = Sample.opened.1 ∧ uncounted refused.2.2 = uncounted chain :=
  ⟨by decide, refused_operation_changes_nothing host_restores _ _ _ (by decide)⟩

end Engine

end LeveragedLp

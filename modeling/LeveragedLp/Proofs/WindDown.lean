import LeveragedLp.Proofs.Journal
import LeveragedLp.Proofs.Judgement
import LeveragedLp.Proofs.Reachable

/-!
# Winding down without quotes

A closed pool is wound down whatever its shares are worth. Two hosts that differ in what they
estimate and in nothing else (`Host.ActsAs`) are compared step by step: in related states a
computation has the same fault, or results and states that are related again (`HostM.Alike`). What
a settlement reads of an estimate is the health alone, and in the winding down of a pool finding it
does not fail; so of two settlements that began alike only the health is different, and with it its
text in the event of the close (`Engine.settle_alike`). Every call that moves funds is the same
(`Engine.wind_down_ignores_quotes`).
-/

set_option autoImplicit false

namespace LeveragedLp

open EngineM Engine

/-! ## Related states -/

/-- Two steps come to the same fault or to related results, and to related states. -/
inductive EndsAlike {ε σ τ α β : Type} (Q : α → β → Prop) (R : σ → τ → Prop) :
    Except ε α × σ → Except ε β × τ → Prop
  | ok {a : α} {b : β} {s : σ} {t : τ} (result : Q a b) (state : R s t) :
      EndsAlike Q R (.ok a, s) (.ok b, t)
  | error {s : σ} {t : τ} (fault : ε) (state : R s t) :
      EndsAlike Q R (.error fault, s) (.error fault, t)

theorem EndsAlike.refl {ε σ α : Type} (x : Except ε α × σ) : EndsAlike Eq Eq x x := by
  rcases x with ⟨fault | a, s⟩
  · exact .error fault rfl
  · exact .ok rfl rfl

/-- Two hosts answer and do the same in related states. What they estimate is left open. -/
structure Host.ActsAs {σ κ τ μ : Type} (h : Host σ κ) (h' : Host τ μ) (R : σ → τ → Prop) :
    Prop where
  route : ∀ {s t}, R s t → h.route s = h'.route t
  poolTvl : ∀ {s t}, R s t → h.poolTvl s = h'.poolTvl t
  poolTotalShares : ∀ {s t}, R s t → h.poolTotalShares s = h'.poolTotalShares t
  liquidityPools : ∀ {s t}, R s t → h.liquidityPools s = h'.liquidityPools t
  price : ∀ {s t}, R s t → h.price s = h'.price t
  balance : ∀ {s t}, R s t → h.balance s = h'.balance t
  lendingDenom : ∀ {s t}, R s t → h.lendingDenom s = h'.lendingDenom t
  interestRate : ∀ {s t}, R s t → h.interestRate s = h'.interestRate t
  available : ∀ {s t}, R s t → h.available s = h'.available t
  swap : ∀ account coin route least {s t}, R s t →
    EndsAlike Eq R (h.swap account coin route least s) (h'.swap account coin route least t)
  send : ∀ source target coin {s t}, R s t →
    EndsAlike Eq R (h.send source target coin s) (h'.send source target coin t)
  borrow : ∀ account amount {s t}, R s t →
    EndsAlike Eq R (h.borrow account amount s) (h'.borrow account amount t)
  repay : ∀ account amount {s t}, R s t →
    EndsAlike Eq R (h.repay account amount s) (h'.repay account amount t)
  payInterest : ∀ account amount {s t}, R s t →
    EndsAlike Eq R (h.payInterest account amount s) (h'.payInterest account amount t)
  writeOff : ∀ amount {s t}, R s t → EndsAlike Eq R (h.writeOff amount s) (h'.writeOff amount t)
  absorb : ∀ pool coin {s t}, R s t →
    EndsAlike Eq R (h.absorb pool coin s) (h'.absorb pool coin t)
  checkpoint : ∀ {s t}, R s t → R (h.checkpoint s).2 (h'.checkpoint t).2
  restore : ∀ {s t u v}, R s t → R u v →
    R (h.restore (h.checkpoint s).1 u) (h'.restore (h'.checkpoint t).1 v)

/-- A host whose estimates are replaced acts as before. -/
theorem Host.actsAs_of_estimates {σ κ : Type} (h : Host σ κ)
    (estimateIn estimateOut : σ → Coin → SwapRoute → Except HostFault Amount) :
    h.ActsAs { h with estimateIn, estimateOut } Eq := by
  constructor
  case checkpoint =>
    rintro s _ rfl
    rfl
  case restore =>
    rintro s _ u _ rfl rfl
    rfl
  all_goals
    intros
    subst_vars
    first | rfl | exact .refl _

section

variable {σ κ τ μ α : Type} {h : Host σ κ} {h' : Host τ μ} {R : σ → τ → Prop}

/-- States with the same journal beside them. -/
def Journaling (R : σ → τ → Prop) (s : σ × Journal) (t : τ × Journal) : Prop :=
  R s.1 t.1 ∧ s.2 = t.2

/-- A call that is entered in equal journals leaves equal journals. -/
theorem noting_alike (moved : α → Transfer) {call : σ → Except HostFault α × σ}
    {call' : τ → Except HostFault α × τ} {s : σ × Journal} {t : τ × Journal}
    (hlending : h.lendingDenom s.1 = h'.lendingDenom t.1) (hjournal : s.2 = t.2)
    (hcall : EndsAlike Eq R (call s.1) (call' t.1)) :
    EndsAlike Eq (Journaling R) (h.noting moved call s) (h'.noting moved call' t) := by
  unfold Host.noting
  rw [hlending, hjournal]
  generalize call s.1 = x, call' t.1 = y at hcall
  cases hcall with
  | ok hab hst =>
      cases hab
      exact .ok rfl ⟨hst, rfl⟩
  | error fault hst => exact .error fault ⟨hst, rfl⟩

/-- Hosts that act alike do so with journals kept. -/
theorem Host.ActsAs.journaled (hacts : h.ActsAs h' R) :
    h.journaled.ActsAs h'.journaled (Journaling R) where
  route := by
    intro s t hst
    have hroute := hacts.route hst.1
    funext source target
    show (h.route s.1 source target).map _ = (h'.route t.1 source target).map _
    rw [hroute]
  poolTvl hst := hacts.poolTvl hst.1
  poolTotalShares hst := hacts.poolTotalShares hst.1
  liquidityPools hst := hacts.liquidityPools hst.1
  price hst := hacts.price hst.1
  balance hst := hacts.balance hst.1
  lendingDenom hst := hacts.lendingDenom hst.1
  interestRate hst := hacts.interestRate hst.1
  available hst := hacts.available hst.1
  swap := by
    intro account coin route least s t hst
    -- both look their own route up, and find the same
    have hroute : h.ownRoute s.1 coin route = h'.ownRoute t.1 coin route := by
      unfold ownRoute
      rw [hacts.route hst.1]
    have hswap := hacts.swap account coin (h.ownRoute s.1 coin route) least hst.1
    show EndsAlike Eq (Journaling R) (h.noting _ (h.swap account coin _ least) s)
      (h'.noting _ (h'.swap account coin (h'.ownRoute t.1 coin route) least) t)
    rw [← hroute]
    exact noting_alike _ (hacts.lendingDenom hst.1) hst.2 hswap
  send source target coin _ _ hst :=
    noting_alike _ (hacts.lendingDenom hst.1) hst.2 (hacts.send source target coin hst.1)
  borrow account amount _ _ hst :=
    noting_alike _ (hacts.lendingDenom hst.1) hst.2 (hacts.borrow account amount hst.1)
  repay account amount _ _ hst :=
    noting_alike _ (hacts.lendingDenom hst.1) hst.2 (hacts.repay account amount hst.1)
  payInterest account amount _ _ hst :=
    noting_alike _ (hacts.lendingDenom hst.1) hst.2 (hacts.payInterest account amount hst.1)
  writeOff amount _ _ hst :=
    noting_alike _ (hacts.lendingDenom hst.1) hst.2 (hacts.writeOff amount hst.1)
  absorb pool coin _ _ hst :=
    noting_alike _ (hacts.lendingDenom hst.1) hst.2 (hacts.absorb pool coin hst.1)
  checkpoint hst := ⟨hacts.checkpoint hst.1, hst.2⟩
  restore hst huv := ⟨hacts.restore hst.1 huv.1, hst.2⟩

end

/-! ## Related computations -/

/-- From related states two computations end alike. -/
def HostM.Alike {σ τ α β : Type} (R : σ → τ → Prop) (Q : α → β → Prop) (x : HostM σ α)
    (y : HostM τ β) : Prop :=
  ∀ s t, R s t → EndsAlike Q R (x s) (y t)

namespace HostM.Alike

variable {σ τ α β α' β' : Type} {R : σ → τ → Prop} {Q : α → β → Prop} {Q' : α' → β' → Prop}

theorem pure {a : α} {b : β} (h : Q a b) : Alike R Q (Pure.pure a) (Pure.pure b) :=
  fun _ _ hst => .ok h hst

theorem ofExcept (x : Except Fault α) : Alike R Eq (HostM.ofExcept x) (HostM.ofExcept x) := by
  intro s t hst
  cases x with
  | error fault => exact .error fault hst
  | ok a => exact .ok rfl hst

theorem reading {f : σ → Except Fault α} {g : τ → Except Fault α}
    (h : ∀ s t, R s t → f s = g t) : Alike R Eq (HostM.reading f) (HostM.reading g) := by
  intro s t hst
  rw [reading_apply, reading_apply, h s t hst]
  exact ofExcept (g t) s t hst

theorem moving {movement : Movement} {call : σ → Except HostFault α × σ}
    {call' : τ → Except HostFault α × τ}
    (h : ∀ s t, R s t → EndsAlike Eq R (call s) (call' t)) :
    Alike R Eq (HostM.moving movement call) (HostM.moving movement call') := by
  intro s t hst
  have hcall := h s t hst
  unfold HostM.moving
  generalize call s = x, call' t = y at hcall
  cases hcall with
  | ok hab huv => exact .ok hab huv
  | error fault huv => exact .error _ huv

theorem bind {x : HostM σ α} {y : HostM τ β} {f : α → HostM σ α'} {g : β → HostM τ β'}
    (hx : Alike R Q x y) (hf : ∀ a b, Q a b → Alike R Q' (f a) (g b)) :
    Alike R Q' (x >>= f) (y >>= g) := by
  intro s t hst
  have hfirst := hx s t hst
  rw [bind_apply, bind_apply]
  generalize x s = u, y t = v at hfirst
  cases hfirst with
  | ok hab huv => exact hf _ _ hab _ _ huv
  | error fault huv => exact .error fault huv

/-- The same of computations with equal results. -/
theorem bind_eq {x : HostM σ α} {y : HostM τ α} {f : α → HostM σ α'} {g : α → HostM τ β'}
    (hx : Alike R Eq x y) (hf : ∀ a, Alike R Q' (f a) (g a)) :
    Alike R Q' (x >>= f) (y >>= g) := by
  refine hx.bind fun a b hab => ?_
  rw [← hab]
  exact hf a

/-- What is left out where an amount is zero is left out on both sides. -/
theorem ite {c : Prop} [Decidable c] {x x' : HostM σ α} {y y' : HostM τ β}
    (hx : Alike R Q x y) (hx' : Alike R Q x' y') :
    Alike R Q (if c then x else x') (if c then y else y') := by
  by_cases hc : c
  · rw [if_pos hc, if_pos hc]
    exact hx
  · rw [if_neg hc, if_neg hc]
    exact hx'

end HostM.Alike

/-! ## All but the health -/

/-- An event without the text of the health in it. -/
def Event.withoutHealth : Event → Event
  | opened position => opened { position with health := "" }
  | collateralAdded position amount => collateralAdded { position with health := "" } amount
  | closed position reason => closed { position with health := "" } reason
  | forceClosed position reason => forceClosed { position with health := "" } reason
  | event => event

/-- A settlement without the health at the close. -/
def Settlement.withoutHealth (x : Settlement) : Settlement :=
  { x with position := { x.position with health := .zero } }

/-- An answer without the health at a close. -/
def Answer.withoutHealth : Answer → Answer
  | closed x => closed x.withoutHealth
  | forceClose (.closed x) => forceClose (.closed x.withoutHealth)
  | answer => answer

theorem Settlement.event_withoutHealth (x : Settlement) :
    x.event.withoutHealth = x.withoutHealth.event.withoutHealth := by
  have hreason : x.withoutHealth.reason = x.reason := rfl
  unfold Settlement.event Event.ofClose
  rw [hreason]
  cases x.reason <;> rfl

/-- Two engines that differ at most in the health that their events tell, each beside a host. -/
structure Beside {σ τ : Type} (R : σ → τ → Prop) (x : Engine × σ) (y : Engine × τ) : Prop where
  params : x.1.params = y.1.params
  book : x.1.book = y.1.book
  events : x.1.events.map Event.withoutHealth = y.1.events.map Event.withoutHealth
  state : R x.2 y.2

namespace EngineM

variable {σ κ τ μ α β : Type} {h : Host σ κ} {h' : Host τ μ} {R : σ → τ → Prop}
variable {Q : α → β → Prop}

theorem onHost_alike {x : HostM σ α} {y : HostM τ β} (hx : HostM.Alike R Q x y) :
    HostM.Alike (Beside R) Q (onHost x) (onHost y) := by
  intro ⟨e, s⟩ ⟨e', t⟩ hst
  have hstep := hx s t hst.state
  rw [onHost_apply, onHost_apply]
  generalize x s = u, y t = v at hstep
  cases hstep with
  | ok hab huv => exact .ok hab ⟨hst.params, hst.book, hst.events, huv⟩
  | error fault huv => exact .error fault ⟨hst.params, hst.book, hst.events, huv⟩

/-- What is read of parameters, book and host is the same. -/
theorem asking_alike {f : Engine → σ → Except Fault α} {g : Engine → τ → Except Fault α}
    (hf : ∀ e e' s t, e.params = e'.params → e.book = e'.book → R s t → f e s = g e' t) :
    HostM.Alike (Beside R) Eq (asking f) (asking g) := by
  intro ⟨e, s⟩ ⟨e', t⟩ hst
  have hsame : f e s = g e' t := hf e e' s t hst.params hst.book hst.state
  rw [asking_apply, asking_apply, hsame]
  exact HostM.Alike.ofExcept (g e' t) _ _ hst

/-- The book is changed on both sides alike. -/
theorem altering_book_alike (f : Book → Book) :
    HostM.Alike (Beside R) Eq (altering fun e => { e with book := f e.book })
      (altering fun e => { e with book := f e.book }) := by
  intro ⟨e, s⟩ ⟨e', t⟩ hst
  have hbook : f e.book = f e'.book := congrArg f hst.book
  exact .ok rfl ⟨hst.params, hbook, hst.events, hst.state⟩

/-- Events are told that differ at most in the health. -/
theorem emitAll_alike {new new' : List Event}
    (hnew : new.map Event.withoutHealth = new'.map Event.withoutHealth) :
    HostM.Alike (Beside R) Eq (altering fun e => e.emitAll new)
      (altering fun e => e.emitAll new') := by
  intro ⟨e, s⟩ ⟨e', t⟩ hst
  refine .ok rfl ⟨hst.params, hst.book, ?_, hst.state⟩
  show (e.events ++ new).map _ = (e'.events ++ new').map _
  rw [List.map_append, List.map_append, hst.events, hnew]

/-- Both sides go back to their checkpoints, or neither does. -/
theorem atomically_alike (hacts : h.ActsAs h' R) {x : EngineM σ α} {y : EngineM τ β}
    (hx : HostM.Alike (Beside R) Q x y) :
    HostM.Alike (Beside R) Q (atomically h x) (atomically h' y) := by
  intro ⟨e, s⟩ ⟨e', t⟩ hst
  have hbegin : Beside R (e, (h.checkpoint s).2) (e', (h'.checkpoint t).2) :=
    ⟨hst.params, hst.book, hst.events, hacts.checkpoint hst.state⟩
  have hrun := hx _ _ hbegin
  rw [atomically_apply, atomically_apply]
  generalize x (e, (h.checkpoint s).2) = u, y (e', (h'.checkpoint t).2) = v at hrun
  cases hrun with
  | ok hab huv => exact .ok hab huv
  | error fault huv =>
      have hlength : e.events.length = e'.events.length := by
        have hmapped := congrArg List.length hst.events
        rwa [List.length_map, List.length_map] at hmapped
      refine .error fault ⟨huv.params, hst.book, ?_, hacts.restore hst.state huv.state⟩
      show (List.take _ _).map _ = (List.take _ _).map _
      rw [List.map_take, List.map_take, huv.events, hlength]

end EngineM

/-! ## The settlement of a closed pool -/

section

variable {σ κ τ μ : Type} {h : Host σ κ} {h' : Host τ μ} {R : σ → τ → Prop}

namespace Host.ActsAs

theorem trade (hacts : h.ActsAs h' R) (coin : Coin) (target : Denom) (least : Amount) :
    HostM.Alike R Eq (h.trade coin target least) (h'.trade coin target least) := by
  refine .bind_eq (.reading fun s t hst => ?_) fun route => .moving fun s t hst => ?_
  · rw [hacts.route hst]
  · exact hacts.swap _ _ _ _ hst

theorem redeem (hacts : h.ActsAs h' R) (p : Position) :
    HostM.Alike R Eq (p.redeem h) (p.redeem h') := .ite (.pure rfl) (hacts.trade _ _ _)

theorem repay_debt (hacts : h.ActsAs h' R) (amount : Amount) :
    HostM.Alike R Eq (Position.repay h amount) (Position.repay h' amount) :=
  .ite (.pure rfl) (.moving fun _ _ hst => hacts.repay _ _ hst)

theorem forgive (hacts : h.ActsAs h' R) (p : Position) (amount : Amount) :
    HostM.Alike R Eq (p.forgive h amount) (p.forgive h' amount) :=
  .ite (.pure rfl) (.bind_eq (.moving fun _ _ hst => hacts.writeOff _ hst) fun _ =>
    .moving fun _ _ hst => hacts.absorb _ _ hst)

theorem payOut (hacts : h.ActsAs h' R) (p : Position) (amount : Amount) :
    HostM.Alike R Eq (p.payOut h amount) (p.payOut h' amount) :=
  .ite (.pure rfl) (.moving fun _ _ hst => hacts.send _ _ _ hst)

end Host.ActsAs

namespace Engine

/-- Settlements that differ at most in the health at the close. -/
def SettledAlike (x y : Settlement) : Prop := x.withoutHealth = y.withoutHealth

/-- The funds of a position are paid out alike, whatever its health was found to be. -/
theorem distribute_alike (hacts : h.ActsAs h' R) (p : Position) (health health' : Decimal)
    (reason : CloseReason) (accrual : Accrual) :
    HostM.Alike (Beside R) SettledAlike (distribute h { p with health } reason accrual)
      (distribute h' { p with health := health' } reason accrual) := by
  refine .bind_eq (asking_alike fun e e' s t hparams _ _ => ?_) fun debt =>
    .bind_eq (onHost_alike (hacts.redeem p)) fun proceeds => .bind_eq (.ofExcept _) fun funds =>
      .bind_eq (onHost_alike (hacts.repay_debt _)) fun _ =>
        .bind_eq (.ofExcept _) fun shortfall => ?_
  · rw [hparams]
    rfl
  · exact .bind_eq (onHost_alike (hacts.forgive p _)) fun _ => .bind_eq (emitAll_alike rfl) fun _ =>
      .bind_eq (.ofExcept _) fun payout => .bind_eq (onHost_alike (hacts.payOut p _)) fun _ =>
        .pure rfl

theorem unexpose_alike (p : Position) (total : Amount) :
    HostM.Alike (Beside R) Eq (unexpose p total : EngineM σ Unit) (unexpose p total) := by
  refine .bind_eq (asking_alike fun e e' s t _ hbook _ => ?_) fun pool =>
    .bind_eq (.ofExcept _) fun released =>
      .bind_eq (altering_book_alike (·.putPool released)) fun _ =>
        .bind_eq (.ofExcept _) fun refreshed => altering_book_alike (·.putPool refreshed)
  rw [hbook]

/-- In the winding down of a pool a health is found, if need be the last known. -/
theorem closingHealth_isOk (h : Host σ κ) (e : Engine) (p : Position) (s : σ) :
    ∃ health, e.closingHealth h p .poolWindDown s = .ok health := by
  unfold closingHealth
  cases h.healthOrMax e.params s p with
  | ok health => exact ⟨health, rfl⟩
  | error fault => exact ⟨p.health, rfl⟩

/-- Finding the health of a position in a closed pool fails on no host. -/
theorem closingHealth_alike (p : Position) :
    HostM.Alike (Beside R) (fun _ _ => True)
      (asking fun e => e.closingHealth h p .poolWindDown)
      (asking fun e => e.closingHealth h' p .poolWindDown) := by
  intro ⟨e, s⟩ ⟨e', t⟩ hst
  obtain ⟨health, hhealth⟩ := closingHealth_isOk h e p s
  obtain ⟨health', hhealth'⟩ := closingHealth_isOk h' e' p t
  rw [asking_apply, asking_apply, hhealth, hhealth']
  exact .ok trivial hst

/-- Settlements that wind a pool down are alike but for the health. -/
theorem settle_alike (hacts : h.ActsAs h' R) (p : Position) (block : Block) :
    HostM.Alike (Beside R) SettledAlike (settle h p .poolWindDown block)
      (settle h' p .poolWindDown block) := by
  refine .bind_eq (asking_alike fun e e' s t hparams _ hst => ?_) fun ⟨accrual, charged⟩ =>
    .bind (closingHealth_alike charged) fun health health' _ =>
      .bind (distribute_alike hacts charged health health' .poolWindDown accrual) fun x y hxy =>
        .bind_eq (asking_alike fun e e' s t _ _ hst => ?_) fun total => ?_
  · unfold chargeUp
    rw [hparams, hacts.interestRate hst]
  · show h.sharesOf charged.pool s = h'.sharesOf charged.pool t
    unfold Host.sharesOf
    rw [hacts.poolTotalShares hst]
  · have htold : [x.event].map Event.withoutHealth = [y.event].map Event.withoutHealth := by
      show [x.event.withoutHealth] = [y.event.withoutHealth]
      rw [x.event_withoutHealth, y.event_withoutHealth, hxy]
    exact .bind_eq (unexpose_alike charged total) fun _ =>
      .bind_eq (altering_book_alike (·.remove charged.key)) fun _ =>
        .bind_eq (emitAll_alike htold) fun _ => .pure hxy

/-! ## A forced close in a closed pool -/

variable {e : Engine} {k : PositionKey} {p : Position} {block : Block} {s : σ} {t : τ}

theorem eligibility_of_closed (hclosed : e.InClosedPool p) :
    e.eligibility h p block s = .ok (.close .poolWindDown) := by
  obtain ⟨pool, hpool, hclosed⟩ := hclosed
  have hget : e.book.pool? p.pool = some pool := Book.pool_eq_ok.1 hpool
  unfold eligibility
  rw [hget, Option.any_some, hclosed]
  rfl

/-- In a closed pool a forced close is a settlement, whatever the host answers. -/
theorem forceClose_of_closed (hfound : e.book.position k = .ok p) (hclosed : e.InClosedPool p) :
    forceClose h k block (e, s) =
      (atomically h (settle h p .poolWindDown block) >>= fun x => pure (.closed x)) (e, s) := by
  have hjudged : e.eligibility h p block s = .ok (.close .poolWindDown) :=
    eligibility_of_closed hclosed
  unfold forceClose
  rw [HostM.bind_apply, asking_apply, hfound]
  show (asking _ >>= _) (e, s) = _
  rw [HostM.bind_apply, asking_apply, hjudged]

/-- Made from their checkpoints, the settlements are alike as well. -/
theorem closed_alike (hacts : h.ActsAs h' R) (p : Position) (block : Block) :
    HostM.Alike (Beside R)
      (fun a b => (Answer.forceClose a).withoutHealth = (Answer.forceClose b).withoutHealth)
      (atomically h (settle h p .poolWindDown block) >>= fun x => pure (.closed x))
      (atomically h' (settle h' p .poolWindDown block) >>= fun x => pure (.closed x)) := by
  refine (atomically_alike hacts (settle_alike hacts p block)).bind fun x y hxy => .pure ?_
  exact congrArg (fun z => Answer.forceClose (.closed z)) hxy

/-- What becomes of the request of a forced close is seen on the journaled host. -/
theorem forceClose_request (h : Host σ κ) (e : Engine) (k : PositionKey) (block : Block) (s : σ) :
    let run := forceClose h.journaled k block (e, s, [])
    e.respond ⟨h, s, .forceClose k block⟩ = run.1.map .forceClose ∧
      e.next ⟨h, s, .forceClose k block⟩ = run.2.1 ∧
      e.committed ⟨h, s, .forceClose k block⟩ = run.2.2.2 := by
  have herases := perform_erases h e (.forceClose k block) (s, [])
  have hanswer := congrArg Prod.fst herases
  have hnext := congrArg (fun x => x.2.1) herases
  exact ⟨hanswer, hnext, rfl⟩

/-- **Winding down ignores quotes.** A position in a closed pool is closed by force on two hosts
that act alike and estimate as they please. On both it fails with the same fault, or on both it
succeeds; the same calls stand, the same book is left, and answer and events differ at most in the
health. -/
theorem wind_down_ignores_quotes (hacts : h.ActsAs h' R) (hst : R s t)
    (hfound : e.book.position k = .ok p) (hclosed : e.InClosedPool p) (block : Block) :
    let q : Request := ⟨h, s, .forceClose k block⟩
    let q' : Request := ⟨h', t, .forceClose k block⟩
    (e.respond q).map Answer.withoutHealth = (e.respond q').map Answer.withoutHealth ∧
      e.committed q = e.committed q' ∧ (e.next q).params = (e.next q').params ∧
      (e.next q).book = (e.next q').book ∧
      (e.next q).events.map Event.withoutHealth = (e.next q').events.map Event.withoutHealth := by
  intro q q'
  obtain ⟨hanswer, hnext, hcommitted⟩ := forceClose_request h e k block s
  obtain ⟨hanswer', hnext', hcommitted'⟩ := forceClose_request h' e k block t
  -- the two settlements on journaled hosts, with their journals still empty
  have hrun := closed_alike hacts.journaled p block (e, s, []) (e, t, [])
    ⟨rfl, rfl, rfl, hst, rfl⟩
  rw [← forceClose_of_closed hfound hclosed, ← forceClose_of_closed hfound hclosed] at hrun
  rw [hanswer, hanswer', hnext, hnext', hcommitted, hcommitted']
  generalize forceClose h.journaled k block (e, s, []) = x,
    forceClose h'.journaled k block (e, t, []) = y at hrun ⊢
  cases hrun with
  | ok hab huv => exact ⟨congrArg Except.ok hab, huv.state.2, huv.params, huv.book, huv.events⟩
  | error fault huv => exact ⟨rfl, huv.state.2, huv.params, huv.book, huv.events⟩

/-- Of two chains one has lost all its quotes. Alice's position is wound down on both, with the same
calls; but one close tells the health that was found, and the other the last known. -/
theorem wind_down_without_quotes :
    let world := Sample.world
      [.createPool 1 (.tenths 50) true, .openPosition Sample.opening ⟨1, 0⟩, .closePool 1]
    let silent (_ : Chain) (_ : Coin) (_ : SwapRoute) : Except HostFault Amount :=
      .error (.rejected "no quotes")
    let op := Operation.forceClose ⟨Sample.alice, 1⟩ ⟨2, 7884000⟩
    let q : Request := ⟨Chain.host, world.2, op⟩
    let q' : Request :=
      ⟨{ Chain.host with estimateIn := silent, estimateOut := silent }, world.2, op⟩
    (world.1.committed q).length = 4 ∧ (world.1.next q).events ≠ (world.1.next q').events ∧
      (world.1.respond q).map Answer.withoutHealth =
        (world.1.respond q').map Answer.withoutHealth ∧
      world.1.committed q = world.1.committed q' ∧
      (world.1.next q).book = (world.1.next q').book ∧
      (world.1.next q).events.map Event.withoutHealth =
        (world.1.next q').events.map Event.withoutHealth := by
  intro world silent op q q'
  have hdiffer : (world.1.committed q).length = 4 ∧
      (world.1.next q).events ≠ (world.1.next q').events := by decide +kernel
  have hfound : ((world.1.book.position ⟨Sample.alice, 1⟩).map fun p =>
      (world.1.book.pool p.pool).map Pool.closed) = .ok (.ok true) := by decide +kernel
  obtain ⟨p, hp, hpool⟩ := except_map_eq_ok.1 hfound
  obtain ⟨pool, hpool, hclosed⟩ := except_map_eq_ok.1 hpool
  have hacts := Chain.host.actsAs_of_estimates silent silent
  have hstart : world.2 = world.2 := rfl
  have hsame := wind_down_ignores_quotes hacts hstart hp ⟨pool, hpool, hclosed⟩ ⟨2, 7884000⟩
  exact ⟨hdiffer.1, hdiffer.2, hsame.1, hsame.2.1, hsame.2.2.2.1, hsame.2.2.2.2⟩

end Engine

end

end LeveragedLp

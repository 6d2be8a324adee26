import LeveragedLp.Proofs.Sweep

/-!
# No close without its reason

The reason of a settlement is found by reading alone, and the settlement then charges the interest
and computes the health on its own. The two agree because a checkpoint, which is all that lies
between them, does not change what the host answers (`Host.CheckpointsQuietly`): the health
recorded at the close is the health that the position was judged by (`Closing.recorded_health`). So
each settlement of an operation has its reason (`Settling.Justified`), and the answer, the report of
a block and the events tell of these settlements and no others (`SettlesJustly`).
-/

set_option autoImplicit false

namespace LeveragedLp

open EngineM Engine

/-- Taking a checkpoint is a reading of the host: it changes neither the rate of interest nor what
anything is worth. -/
structure Host.CheckpointsQuietly {σ κ : Type} (h : Host σ κ) : Prop where
  interestRate : ∀ s, h.interestRate (h.checkpoint s).2 = h.interestRate s
  route : ∀ s, h.route (h.checkpoint s).2 = h.route s
  estimateIn : ∀ s, h.estimateIn (h.checkpoint s).2 = h.estimateIn s

/-! ## The settlements of an operation -/

/-- A settlement, with the engine and the host that it began with. -/
structure Settling (σ : Type) where
  engine : Engine
  host : σ
  settlement : Settlement

namespace Answer

/-- The settlements that an answer tells of. -/
def settlements : Answer → List Settlement
  | .closed settlement => [settlement]
  | .forceClose (.closed settlement) => [settlement]
  | .block report => report.visits.settlements
  | _ => []

end Answer

section

variable {σ κ : Type}

namespace Engine

/-- The settlements of an operation, in their order. -/
def settlings (h : Host σ κ) (e : Engine) (op : Operation) (s : σ) : List (Settling σ) :=
  match op with
  | .close _ _ => (toldBy Answer.settlements (e.perform h op s).1).map fun t => ⟨e, s, t⟩
  | .forceClose _ _ => (toldBy Answer.settlements (e.perform h op s).1).map fun t => ⟨e, s, t⟩
  | .beginBlock block => (sweepMoments h e block s).filterMap fun m =>
      (Visits.settled? (m.visited (sweepVisit h block)).1).map fun t => ⟨m.engine, m.host, t⟩
  | _ => []

end Engine

/-- The reason for which the position `p` of the book was settled was true. The health is the one
that the settlement recorded, and the price is that of the moment. -/
inductive Settling.HasReason (h : Host σ κ) (op : Operation) (x : Settling σ) (p : Position) :
    CloseReason → Prop
  | user {block : Block} (asked : op = .close ⟨p.owner, p.id⟩ block) : HasReason h op x p .user
  | liquidation (pool : x.engine.InOpenPool p)
      (health : x.settlement.response.health ≤ x.engine.params.liquidationThreshold) :
      HasReason h op x p .liquidation
  | poolWindDown (pool : x.engine.InClosedPool p) : HasReason h op x p .poolWindDown
  | takeProfit {block : Block} {target price : Decimal} (swept : op = .beginBlock block)
      (pool : x.engine.InOpenPool p)
      (health : x.engine.params.liquidationThreshold < x.settlement.response.health)
      (asked : p.takeProfit = some target)
      (found : x.engine.priceOf h p.custody.denom x.host = .ok price) (reached : target ≤ price) :
      HasReason h op x p .takeProfit

/-- The settlement is of a position on the book, and has its reason. -/
def Settling.Justified (h : Host σ κ) (op : Operation) (x : Settling σ) : Prop :=
  ∃ p, x.engine.book.position x.settlement.position.key = .ok p ∧
    x.HasReason h op p x.settlement.reason

/-- All settlements of an operation have their reasons; and the answer, the report of a block and
the events tell of these settlements and no others. -/
structure SettlesJustly (h : Host σ κ) (e : Engine) (op : Operation) (s : σ) : Prop where
  justified : ∀ x ∈ e.settlings h op s, x.Justified h op
  /-- A position that is healthy, in a pool that is not closed, is never closed by force. -/
  healthy : ∀ x ∈ e.settlings h op s, ∀ p,
    x.engine.book.position x.settlement.position.key = .ok p → x.engine.InOpenPool p →
      x.engine.params.liquidationThreshold < x.settlement.response.health →
        ∀ summary reason, x.settlement.event ≠ .forceClosed summary reason
  answered : toldBy Answer.settlements (e.perform h op s).1 =
    (e.settlings h op s).map Settling.settlement
  reported : ∀ report, (e.perform h op s).1 = .ok (.block report) → ∀ reason,
    report.settledFor reason =
      (((e.settlings h op s).map Settling.settlement).filter fun t => t.reason == reason).map
        fun t => t.position.key
  told : op ≠ .drainEvents → ∃ told, (e.perform h op s).2.1.events = e.events ++ told ∧
    told.filter Event.isClose = (e.settlings h op s).map fun x => x.settlement.event

/-! ## Judging and settling agree -/

variable {h : Host σ κ} {op : Operation} {e e' : Engine} {p : Position} {block : Block} {s t : σ}
variable {reason : CloseReason} {health : Decimal}

namespace Host.CheckpointsQuietly

theorem healthOrMax_eq (hq : h.CheckpointsQuietly) (params : Params) (p : Position) (s : σ) :
    h.healthOrMax params (h.checkpoint s).2 p = h.healthOrMax params s p :=
  Host.healthOrMax_congr (Host.valueOf_congr (hq.route s) (hq.estimateIn s)) params p

theorem chargeUp_eq (hq : h.CheckpointsQuietly) (e : Engine) (p : Position) (now : UInt64)
    (s : σ) : e.chargeUp h p now (h.checkpoint s).2 = e.chargeUp h p now s := by
  simp only [chargeUp, hq.interestRate]

end Host.CheckpointsQuietly

namespace Closing

/-- The health that is recorded at a close is the one that the position was judged by. -/
theorem recorded_health (hq : h.CheckpointsQuietly)
    (o : Closing h p reason block e (h.checkpoint s).2 t)
    (hdue : e.dueHealth h p block s = .ok health) : o.settlement.response.health = health := by
  unfold dueHealth at hdue
  rw [← hq.chargeUp_eq, o.charge_eq] at hdue
  have hcharged : h.healthOrMax e.params (h.checkpoint s).2 o.charged = .ok health := by
    rw [hq.healthOrMax_eq]
    exact hdue
  have hrecorded := o.health_eq
  unfold closingHealth at hrecorded
  rw [hcharged] at hrecorded
  exact (Except.ok.inj hrecorded).symm

/-- The pool of a position that was settled is tracked. -/
theorem inOpenPool (o : Closing h p reason block e s t)
    (hclosed : (e.book.pool? p.pool).any Pool.closed = false) : e.InOpenPool p := by
  refine any_closed_eq_false ?_ hclosed
  rw [← (chargeUp_eq_ok o.charge_eq).1.pool]
  exact Book.isSome_of_pool o.tracked_eq

/-- A verdict to close is a true reason. -/
theorem hasReason_of_eligible (hq : h.CheckpointsQuietly)
    (o : Closing h p reason block e (h.checkpoint s).2 t)
    (hjudged : e.eligibility h p block s = .ok (.close reason)) :
    Settling.HasReason h op ⟨e, s, o.settlement⟩ p reason := by
  rcases eligibility_eq_close hjudged with ⟨rfl, hpool⟩ | ⟨rfl, hclosed, health, hdue, hle⟩
  · exact .poolWindDown hpool
  · refine .liquidation (o.inOpenPool hclosed) ?_
    show o.settlement.response.health ≤ e.params.liquidationThreshold
    rw [o.recorded_health hq hdue]
    exact hle

/-- So is what a sweep found. -/
theorem hasReason_of_swept (hq : h.CheckpointsQuietly)
    (o : Closing h p reason block e (h.checkpoint s).2 t)
    (hreason : e.sweepReason h p block s = .ok (some reason)) :
    Settling.HasReason h (.beginBlock block) ⟨e, s, o.settlement⟩ p reason := by
  rcases sweepReason_eq_some hreason with
    hjudged | ⟨rfl, health, target, price, hjudged, htarget, hprice, hreached⟩
  · exact o.hasReason_of_eligible hq hjudged
  · obtain ⟨hclosed, hdue, hlt⟩ := eligibility_eq_healthy hjudged
    refine .takeProfit rfl (o.inOpenPool hclosed) ?_ htarget hprice hreached
    show e.params.liquidationThreshold < o.settlement.response.health
    rw [o.recorded_health hq hdue]
    exact hlt

end Closing

/-- What was settled for its reason in an open pool at a health above the threshold was not closed
by force. -/
theorem Settling.Justified.not_forced {x : Settling σ} (hx : x.Justified h op)
    (hfound : x.engine.book.position x.settlement.position.key = .ok p)
    (hpool : x.engine.InOpenPool p)
    (hlt : x.engine.params.liquidationThreshold < x.settlement.response.health)
    (summary : PositionSummary) (reason : CloseReason) :
    x.settlement.event ≠ .forceClosed summary reason := by
  obtain ⟨q, hq, hreason⟩ := hx
  cases hfound.symm.trans hq
  unfold Settlement.event
  generalize x.settlement.reason = given at hreason
  cases hreason with
  | user asked => exact Event.noConfusion
  | liquidation pool health => exact absurd health (Decimal.not_le.2 hlt)
  | poolWindDown pool =>
      obtain ⟨found, hfoundPool, hopen⟩ := hpool
      obtain ⟨closed, hclosedPool, hclosed⟩ := pool
      cases hfoundPool.symm.trans hclosedPool
      rw [hopen] at hclosed
      cases hclosed
  | takeProfit swept pool health asked found reached => exact Event.noConfusion

/-! ## Operations that settle nothing -/

/-- Only at a block is there a report. -/
theorem isBlock_of_report {report : BlockReport}
    (hreport : (e.perform h op s).1 = .ok (.block report)) : ∃ block, op = .beginBlock block := by
  have hfits := perform_fits hreport
  cases op with
  | beginBlock block => exact ⟨block, rfl⟩
  | _ => cases hfits

namespace SettlesJustly

/-- What is left to say when the settlements are known to have their reasons. -/
theorem of_justified (hjustified : ∀ x ∈ e.settlings h op s, x.Justified h op)
    (hanswered : toldBy Answer.settlements (e.perform h op s).1 =
      (e.settlings h op s).map Settling.settlement)
    (htold : op ≠ .drainEvents → ∃ told, (e.perform h op s).2.1.events = e.events ++ told ∧
      told.filter Event.isClose =
        (toldBy Answer.settlements (e.perform h op s).1).map Settlement.event) :
    SettlesJustly h e op s where
  justified := hjustified
  healthy := fun x hx p hfound hpool hlt => (hjustified x hx).not_forced hfound hpool hlt
  answered := hanswered
  reported := by
    intro report hreport reason
    obtain ⟨block, rfl⟩ := isBlock_of_report hreport
    have hsettled : toldBy Answer.settlements (e.perform h (.beginBlock block) s).1 =
        report.visits.settlements := by
      rw [hreport]
      rfl
    rw [← hanswered, hsettled]
    cases hreport
    exact BlockReport.settledFor_eq (beginBlock_sweeping _ _ _ _).keys reason
  told := by
    intro hdrain
    obtain ⟨told, hevents, hclose⟩ := htold hdrain
    refine ⟨told, hevents, hclose.trans ?_⟩
    rw [hanswered, List.map_map]
    rfl

/-- An operation whose answer is one settlement. -/
theorem of_settlement {settlement : Settlement} (hop : e.settlings h op s =
      (toldBy Answer.settlements (e.perform h op s).1).map fun t => ⟨e, s, t⟩)
    (hanswer : toldBy Answer.settlements (e.perform h op s).1 = [settlement])
    (hjustified : Settling.Justified h op ⟨e, s, settlement⟩)
    (hevents : (e.perform h op s).2.1.events = e.events ++ settlement.events) :
    SettlesJustly h e op s := by
  rw [hanswer] at hop
  refine of_justified ?_ ?_ fun _ => ?_
  · intro x hx
    rw [hop] at hx
    cases List.mem_singleton.1 hx
    exact hjustified
  · rw [hanswer, hop]
    rfl
  · refine ⟨settlement.events, hevents, ?_⟩
    rw [hanswer]
    exact settlement.events_filter_isClose

/-- An operation that settled nothing. -/
theorem of_none (hop : e.settlings h op s = [])
    (hanswer : toldBy Answer.settlements (e.perform h op s).1 = [])
    (htold : op ≠ .drainEvents → ∃ told, (e.perform h op s).2.1.events = e.events ++ told ∧
      told.filter Event.isClose = []) :
    SettlesJustly h e op s := by
  refine of_justified ?_ ?_ ?_
  · rw [hop]
    exact fun x hx => (List.not_mem_nil hx).elim
  · rw [hanswer, hop]
    rfl
  · rw [hanswer]
    exact htold

end SettlesJustly

namespace Engine

theorem settlements_of_fits {answer : Answer} (hsettles : op.settles = false)
    (hfits : answer.fits op = true) : answer.settlements = [] := by
  -- the kinds of answers that tell of settlements are those of the operations that settle
  cases op with
  | close k block => cases hsettles
  | forceClose k block => cases hsettles
  | beginBlock block => cases hsettles
  | _ => cases answer <;> first | rfl | cases hfits

theorem settlings_of_not_settles (h : Host σ κ) (e : Engine) (s : σ)
    (hsettles : op.settles = false) : e.settlings h op s = [] := by
  cases op with
  | close k block => cases hsettles
  | forceClose k block => cases hsettles
  | beginBlock block => cases hsettles
  | _ => rfl

theorem settlesJustly_of_not_settles (h : Host σ κ) (e : Engine) (s : σ)
    (hsettles : op.settles = false) : SettlesJustly h e op s := by
  have hanswer : toldBy Answer.settlements (e.perform h op s).1 = [] :=
    toldBy_perform (fun _ => settlements_of_fits hsettles) h e s
  refine .of_none (settlings_of_not_settles h e s hsettles) hanswer fun hdrain => ?_
  exact (perform_turns h e op s).tells hsettles hdrain

/-! ## Operations that settle -/

/-- A fault is told to the caller and to nobody else. -/
theorem settlesJustly_of_error {fault : Fault} (hop : e.settlings h op s =
      (toldBy Answer.settlements (e.perform h op s).1).map fun t => ⟨e, s, t⟩)
    (hanswer : (e.perform h op s).1 = .error fault) : SettlesJustly h e op s := by
  have hnothing : toldBy Answer.settlements (e.perform h op s).1 = [] := by
    rw [hanswer]
    rfl
  have hsame : (e.perform h op s).2.1 = e := by
    refine (perform_refused ?_).1
    rw [hanswer]
    rfl
  rw [hnothing] at hop
  refine .of_none hop hnothing fun _ => ?_
  rw [hsame]
  exact ⟨[], (List.append_nil _).symm, rfl⟩

theorem settlesJustly_close (h : Host σ κ) (e : Engine) (k : PositionKey) (block : Block)
    (s : σ) : SettlesJustly h e (.close k block) s := by
  rcases hclose : close h k block (e, s) with ⟨fault | settlement, e', t⟩
  · have hperform : e.perform h (.close k block) s = (.error fault, e', t) := by
      simp only [perform, answerM, hclose]
      rfl
    exact settlesJustly_of_error rfl (by rw [hperform])
  · have hperform : e.perform h (.close k block) s = (.ok (.closed settlement), e', t) := by
      simp only [perform, answerM, hclose]
      rfl
    obtain ⟨p, hfound, o, rfl, rfl⟩ := close_eq_ok hclose
    have hasked : Operation.close k block = .close p.key block := by
      rw [Book.key_of_position hfound]
    refine .of_settlement rfl (by rw [hperform]; rfl) ⟨p, o.stored hfound, .user hasked⟩ ?_
    rw [hperform]
    exact o.after_events

theorem settlesJustly_forceClose (hq : h.CheckpointsQuietly) (e : Engine) (k : PositionKey)
    (block : Block) (s : σ) : SettlesJustly h e (.forceClose k block) s := by
  rcases hforce : forceClose h k block (e, s) with ⟨fault | settlement | health, e', t⟩
  · have hperform : e.perform h (.forceClose k block) s = (.error fault, e', t) := by
      simp only [perform, answerM, hforce]
      rfl
    exact settlesJustly_of_error rfl (by rw [hperform])
  · have hperform : e.perform h (.forceClose k block) s =
        (.ok (.forceClose (.closed settlement)), e', t) := by
      simp only [perform, answerM, hforce]
      rfl
    obtain ⟨p, reason, hfound, hjudged, o, rfl, rfl⟩ := forceClose_eq_closed hforce
    refine .of_settlement rfl (by rw [hperform]; rfl)
      ⟨p, o.stored hfound, o.hasReason_of_eligible hq hjudged⟩ ?_
    rw [hperform]
    exact o.after_events
  · have hperform : e.perform h (.forceClose k block) s =
        (.ok (.forceClose (.notEligible health)), e', t) := by
      simp only [perform, answerM, hforce]
      rfl
    obtain ⟨rfl, -⟩ := forceClose_notEligible hforce
    have hnothing : toldBy Answer.settlements (e'.perform h (.forceClose k block) s).1 = [] := by
      rw [hperform]
      rfl
    refine .of_none (congrArg _ hnothing) hnothing fun _ => ⟨[], ?_, rfl⟩
    rw [hperform]
    exact (List.append_nil _).symm

/-- The settlements of a sweep, each with the moment it was made at. -/
theorem settlings_beginBlock (h : Host σ κ) (e : Engine) (block : Block) (s : σ) :
    (e.settlings h (.beginBlock block) s).map Settling.settlement =
      (beginBlock h e block s).1.visits.settlements := by
  have hvisits : (beginBlock h e block s).1.visits = (sweepMoments h e block s).map fun m =>
      (m.key, (m.visited (sweepVisit h block)).1) := visitEach_eq_map _ _ _
  rw [hvisits, Visits.settlements, List.filterMap_map, settlings, List.map_filterMap]
  congr 1
  funext m
  rw [Option.map_map]
  exact Option.map_id'

theorem settlesJustly_beginBlock (hq : h.CheckpointsQuietly) (e : Engine) (block : Block)
    (s : σ) : SettlesJustly h e (.beginBlock block) s := by
  refine .of_justified ?_ (settlings_beginBlock h e block s).symm fun _ => ?_
  · intro y hy
    obtain ⟨m, hm, hy⟩ := List.mem_filterMap.1 hy
    obtain ⟨settlement, hsettled, rfl⟩ := Option.map_eq_some_iff.1 hy
    obtain ⟨p, reason, t, o, hfound, hreason, rfl⟩ :=
      sweepVisit_eq_settled (Visits.settled?_eq_some.1 hsettled)
    exact ⟨p, o.stored hfound, o.hasReason_of_swept hq hreason⟩
  · obtain ⟨told, hevents, hclose⟩ := beginBlock_tells h e block s
    exact ⟨told, hevents, hclose.trans (Settlement.closes_eq _)⟩

/-- **No close without its reason.** Every settlement that an operation makes has a reason that was
true when it was made, and the answer, the report of a block and the events say so alike. -/
theorem settlesJustly (hq : h.CheckpointsQuietly) (e : Engine) (op : Operation) (s : σ) :
    SettlesJustly h e op s := by
  cases hsettles : op.settles with
  | false => exact settlesJustly_of_not_settles h e s hsettles
  | true =>
      cases op with
      | close k block => exact settlesJustly_close h e k block s
      | forceClose k block => exact settlesJustly_forceClose hq e k block s
      | beginBlock block => exact settlesJustly_beginBlock hq e block s
      | _ => cases hsettles

theorem host_checkpointsQuietly : Chain.host.CheckpointsQuietly where
  interestRate _ := rfl
  route _ := rfl
  estimateIn _ := rfl

/-- In one sweep Alice's position is liquidated and Bob's takes its profit, each for its reason. -/
theorem liquidation_and_profit_have_reasons :
    let world := Sample.world
      [.createPool 1 (.tenths 50) true,
       .openPosition Sample.opening ⟨1, 0⟩,
       .openPosition { Sample.opening with
         owner := Sample.bob, leverage := .tenths 20, takeProfit := some (.tenths 11) } ⟨1, 0⟩]
    let chain := world.2.setPrice (.poolShare 1) (.tenths 12)
    let op := Operation.beginBlock ⟨2, 7884000⟩
    (world.1.settlings Chain.host op chain).map
        (fun x => (x.settlement.position.key, x.settlement.reason)) =
      [(⟨Sample.alice, 1⟩, .liquidation), (⟨Sample.bob, 2⟩, .takeProfit)] ∧
      SettlesJustly Chain.host world.1 op chain :=
  ⟨by decide +kernel, settlesJustly host_checkpointsQuietly _ _ _⟩

end Engine

end

end LeveragedLp

import LeveragedLp.Proofs.Epochs
import LeveragedLp.Proofs.Frame

/-!
# A block that is begun twice

Nothing keeps a block from being begun twice. On a host that answers alike in all its states
(`Host.AnswersAlike`) the second time changes little. A visit that spares a position found no reason
to settle it, and what decides about the reason stays as it is: the record, the parameters, and
which pools are closed (`Engine.JudgesAlike`). So a position that was spared is spared by every
later visit (`Engine.Spares`), and only those that failed are tried again. The accrual is not made
again, since it left the epoch of the block on the book.

What the host does with funds is left open: a swap, a payment or a count of shares may turn out
otherwise the second time, which is why a position that failed may then be settled.
-/

set_option autoImplicit false

namespace LeveragedLp

open Engine

/-! ## Equal answers -/

/-- A host that tells the same routes, estimates, prices and rate of interest in all its states. -/
structure Host.AnswersAlike {σ κ : Type} (h : Host σ κ) : Prop where
  route : ∀ s t, h.route s = h.route t
  estimateIn : ∀ s t, h.estimateIn s = h.estimateIn t
  price : ∀ s t, h.price s = h.price t
  interestRate : ∀ s t, h.interestRate s = h.interestRate t

/-- Two engines with the same parameters and the same pools closed. -/
structure Engine.JudgesAlike (e e' : Engine) : Prop where
  params : e'.params = e.params
  closed : ∀ id, (e'.book.pool? id).any Pool.closed = (e.book.pool? id).any Pool.closed

section

variable {σ κ : Type} {h : Host σ κ} {e e' e'' : Engine} {block : Block} {s t : σ}
variable {k : PositionKey} {p : Position}

namespace Host.AnswersAlike

theorem healthOrMax (x : h.AnswersAlike) (params : Params) (s t : σ) :
    h.healthOrMax params s = h.healthOrMax params t := by
  funext p
  exact Host.healthOrMax_congr (Host.valueOf_congr (x.route s t) (x.estimateIn s t)) params p

end Host.AnswersAlike

namespace Engine

namespace JudgesAlike

theorem refl (e : Engine) : e.JudgesAlike e := ⟨rfl, fun _ => rfl⟩

theorem trans (x : e.JudgesAlike e') (y : e'.JudgesAlike e'') : e.JudgesAlike e'' :=
  ⟨y.params.trans x.params, fun id => (y.closed id).trans (x.closed id)⟩

/-- They see the same reason to settle a position, whatever became of the host. -/
theorem sweepReason (x : e.JudgesAlike e') (hx : h.AnswersAlike) (p : Position) (block : Block)
    (s t : σ) : e'.sweepReason h p block t = e.sweepReason h p block s := by
  unfold Engine.sweepReason Engine.eligibility Engine.chargeUp Engine.reachesTakeProfit
    Engine.priceOf
  rw [x.params, x.closed, hx.interestRate t s, hx.healthOrMax _ t s, hx.price t s]

end JudgesAlike

/-- A sweep has no reason to settle the position under a key, whatever became of the host. -/
def Spares (h : Host σ κ) (block : Block) (e : Engine) (k : PositionKey) : Prop :=
  ∀ p, e.book.position k = .ok p → ∀ s, e.sweepReason h p block s = .ok none

end Engine

/-- A settlement closes no pool and opens none. -/
theorem Closing.judgesAlike {reason : CloseReason} (o : Closing h p reason block e s t) :
    e.JudgesAlike o.after := by
  have hput := Book.poolsAgreeBut_putPool (Book.pool_eq_ok.1 o.tracked_pool) o.pool_eq
  refine ⟨rfl, fun id => ?_⟩
  show ((e.book.putPool o.pool).pool? id).any Pool.closed = _
  by_cases hid : id = p.pool
  · obtain ⟨tracked, leveraged, health, hbefore, hafter⟩ := hput.pool
    rw [hid, hbefore, hafter]
    rfl
  · rw [hput.others id hid]

namespace Engine

/-! ## One visit -/

theorem sweepVisit_judgesAlike (block : Block) (k : PositionKey) (e : Engine) (s : σ) :
    e.JudgesAlike (sweepVisit h block k e s).2.1 := by
  rcases sweepVisit_engine h block k e s with hsame | ⟨p, reason, u, o, -, hafter⟩
  · rw [hsame]
    exact .refl e
  · rw [hafter]
    exact o.judgesAlike

theorem sweepVisits_judgesAlike (ks : List PositionKey) (e : Engine) (s : σ) :
    e.JudgesAlike (visitEach (sweepVisit h block) ks e s).2.1 := by
  refine visitEach_induction (P := fun _ _ e' _ => e.JudgesAlike e') ?_ ks [] e s (.refl e)
  intro done k todo e' t x
  exact x.trans (sweepVisit_judgesAlike block k e' t)

/-- A visit files no record, and takes off no other than that of its position. -/
theorem sweepVisit_position (block : Block) (k : PositionKey) (e : Engine) (s : σ) :
    (∀ l p, (sweepVisit h block k e s).2.1.book.position l = .ok p → e.book.position l = .ok p) ∧
      ∀ l, l ≠ k → (sweepVisit h block k e s).2.1.book.position? l = e.book.position? l := by
  rcases sweepVisit_engine h block k e s with hsame | ⟨p, reason, u, o, hfound, hafter⟩
  · rw [hsame]
    exact ⟨fun _ _ => id, fun _ _ => rfl⟩
  · rw [hafter]
    obtain ⟨q, hq, hothers⟩ := (o.closes hfound).others
    exact ⟨fun l p => o.position_of_after, hothers.positions⟩

/-- A position that is spared is spared after every visit. -/
theorem Spares.visited (hx : h.AnswersAlike) (hspared : Spares h block e k) (l : PositionKey)
    (s : σ) : Spares h block (sweepVisit h block l e s).2.1 k := by
  intro p hp t
  rw [(sweepVisit_judgesAlike block l e s).sweepReason hx p block t t]
  exact hspared p ((sweepVisit_position block l e s).1 k p hp) t

/-- The visit of an open position that is spared does nothing. -/
theorem Spares.sweepVisit_eq (hspared : Spares h block e k) (hfound : e.book.position k = .ok p)
    (s : σ) : sweepVisit h block k e s = (.ok none, e, s) := by
  unfold sweepVisit sweepPosition
  rw [HostM.bind_apply, EngineM.asking_apply, hfound]
  show (EngineM.asking _ >>= _) (e, s) = _
  rw [HostM.bind_apply, EngineM.asking_apply, hspared p hfound s]
  rfl

/-- A visit that found no reason leaves the position spared. -/
theorem spares_of_sweepVisit (hx : h.AnswersAlike)
    (hnone : (sweepVisit h block k e s).1 = .ok none) :
    Spares h block (sweepVisit h block k e s).2.1 k := by
  obtain ⟨p, hfound, hreason, hsame⟩ := sweepVisit_eq_spared hnone
  rw [hsame]
  intro q hq t
  cases hfound.symm.trans hq
  rw [(JudgesAlike.refl e).sweepReason hx p block s t]
  exact hreason

/-! ## Two passes -/

/-- The positions that a sweep found no reason to settle are spared when it is over. -/
theorem sweepVisits_spare (hx : h.AnswersAlike) (ks : List PositionKey) (e : Engine) (s : σ) :
    ∀ k, (k, .ok none) ∈ (visitEach (sweepVisit h block) ks e s).1 →
      Spares h block (visitEach (sweepVisit h block) ks e s).2.1 k := by
  refine visitEach_induction
    (P := fun done _ e' _ => ∀ k, (k, .ok none) ∈ done → Spares h block e' k) ?_ ks [] e s
    fun k hk => (List.not_mem_nil hk).elim
  intro done l todo e' t hspared k hk
  rcases List.mem_append.1 hk with hk | hk
  · exact (hspared k hk).visited hx l t
  · obtain ⟨rfl, hnone⟩ := Prod.mk.inj (List.mem_singleton.1 hk)
    exact spares_of_sweepVisit hx hnone.symm

end Engine

/-- How far a sweep of the positions of `e` has come that spares all but those in a list. -/
structure Resweeping (h : Host σ κ) (block : Block) (failed : List PositionKey) (e : Engine)
    (done : Visits (Option Settlement)) (todo : List PositionKey) (e' : Engine) : Prop where
  todo : todo ⊆ e.book.positions.keys
  spared : ∀ k ∉ failed, Spares h block e' k
  unchanged : ∀ k ∉ failed, e'.book.position? k = e.book.position? k
  idle : ∀ k x, (k, x) ∈ done → k ∉ failed → x = .ok none

namespace Resweeping

variable {failed todo : List PositionKey} {done : Visits (Option Settlement)}

/-- A visit of one of those that failed may settle it, and does nothing to the others; a visit of
another does nothing. -/
theorem visited (hx : h.AnswersAlike) (x : Resweeping h block failed e done (k :: todo) e')
    (s : σ) : Resweeping h block failed e (done ++ [(k, (sweepVisit h block k e' s).1)]) todo
      (sweepVisit h block k e' s).2.1 := by
  have htodo : todo ⊆ e.book.positions.keys := fun l hl => x.todo (List.mem_cons_of_mem k hl)
  have hspared : ∀ l ∉ failed, Spares h block (sweepVisit h block k e' s).2.1 l :=
    fun l hl => (x.spared l hl).visited hx k s
  by_cases hk : k ∈ failed
  · refine ⟨htodo, hspared, fun l hl => ?_, fun l y hy hl => ?_⟩
    · have hne : l ≠ k := fun heq => hl (heq ▸ hk)
      exact ((sweepVisit_position block k e' s).2 l hne).trans (x.unchanged l hl)
    · rcases List.mem_append.1 hy with hy | hy
      · exact x.idle l y hy hl
      · cases List.mem_singleton.1 hy
        exact absurd hk hl
  · -- the position is still open, so that its visit is one that spares it
    obtain ⟨p, hp⟩ := Option.isSome_iff_exists.1 (Registry.mem_keys.1 (x.todo List.mem_cons_self))
    have hfound : e'.book.position k = .ok p :=
      Book.position_eq_ok.2 ((x.unchanged k hk).trans hp)
    rw [(x.spared k hk).sweepVisit_eq hfound s]
    refine ⟨htodo, x.spared, x.unchanged, fun l y hy hl => ?_⟩
    rcases List.mem_append.1 hy with hy | hy
    · exact x.idle l y hy hl
    · cases List.mem_singleton.1 hy
      rfl

/-- A sweep whose positions are spared, but for some, lists none but those. -/
theorem listed (x : Resweeping h block failed e done todo e') (accrual : Option AccrualReport) :
    ∀ l ∈ [BlockReport.liquidated ⟨accrual, done⟩, BlockReport.woundDown ⟨accrual, done⟩,
      BlockReport.tookProfit ⟨accrual, done⟩, BlockReport.failed ⟨accrual, done⟩],
      l ⊆ failed := by
  have hlist : ∀ P : Except Fault (Option Settlement) → Bool, P (.ok none) = false →
      done.keysWhere P ⊆ failed := by
    intro P hnone k hk
    obtain ⟨y, hy, hP⟩ := Visits.mem_keysWhere.1 hk
    by_contra hnot
    rw [x.idle k y hy hnot, hnone] at hP
    cases hP
  have hsettled : ∀ reason, BlockReport.settledFor ⟨accrual, done⟩ reason ⊆ failed :=
    fun reason => hlist _ rfl
  have hfailed : BlockReport.failed ⟨accrual, done⟩ ⊆ failed := hlist _ rfl
  simp only [List.forall_mem_cons, List.not_mem_nil, false_imp_iff, implies_true, and_true]
  exact ⟨hsettled _, hsettled _, hsettled _, hfailed⟩

end Resweeping

namespace Engine

theorem sweepVisits_resweeping (hx : h.AnswersAlike) {failed : List PositionKey}
    (hspared : ∀ k ∉ failed, Spares h block e k) (s : σ) :
    Resweeping h block failed e
      (visitEach (sweepVisit h block) e.book.positions.keys e s).1 []
      (visitEach (sweepVisit h block) e.book.positions.keys e s).2.1 := by
  refine visitEach_induction (P := fun done todo e' _ => Resweeping h block failed e done todo e')
    ?_ _ [] e s ⟨List.Subset.refl _, hspared, fun _ _ => rfl, fun _ _ hmem _ =>
      (List.not_mem_nil hmem).elim⟩
  intro done k todo e' t x
  exact x.visited hx t

/-- When the sweep of a block is over, all positions are spared that did not fail. -/
theorem beginBlock_spares (hx : h.AnswersAlike) (e : Engine) (block : Block) (s : σ) :
    ∀ k ∉ (beginBlock h e block s).1.failed, Spares h block (beginBlock h e block s).2.1 k := by
  intro k hk p hp t
  have x := beginBlock_sweeping h e block s
  -- the position was open when the sweep began, so it was visited
  obtain ⟨hopen, hsettled⟩ := x.isSome_iff.1 (Book.isSome_of_position hp)
  have hvisited : k ∈ (beginBlock h e block s).1.visits.map Prod.fst := by
    show k ∈ (visitEach (sweepVisit h block) _ _ _).1.map Prod.fst
    rw [visitEach_keys]
    exact Registry.mem_keys.2 hopen
  obtain ⟨⟨l, result⟩, hresult, rfl⟩ := List.mem_map.1 hvisited
  cases result with
  | error fault => exact absurd (Visits.mem_keysWhere.2 ⟨_, hresult, rfl⟩) hk
  | ok settled =>
      cases settled with
      | some settlement => exact absurd (Visits.mem_keysWhere.2 ⟨_, hresult, rfl⟩) hsettled
      | none => exact sweepVisits_spare hx _ _ _ l hresult p hp t

/-! ## The second accrual -/

/-- After an accrual step, the step for the same block does nothing. -/
theorem accrualStep_again (h : Host σ κ) (e : Engine) (block : Block) (s t : σ)
    (hparams : e'.params = (accrualStep h e block s).2.1.params)
    (hlast : e'.book.lastEpoch = (accrualStep h e block s).2.1.book.lastEpoch) :
    ∃ accrual, accrualStep h e' block t = (accrual, e', t) ∧
      (accrual = none ∨ ∃ epoch, accrual = some ⟨epoch, true, []⟩) := by
  have hsame : e'.params = e.params := hparams.trans (accrualStep_params h e block s)
  by_cases hboundary : e.params.isEpochBoundary block.height
  · have hstep : accrualStep h e block s =
        (some (accrueEpoch h e block s).1, (accrueEpoch h e block s).2) := if_pos hboundary
    rw [hstep] at hlast
    have hdone : e'.book.lastEpoch = some (e'.params.epochOf block.height) := by
      rw [hsame]
      exact hlast.trans (accrueEpoch_lastEpoch h e block s)
    refine ⟨_, ?_, .inr ⟨e'.params.epochOf block.height, rfl⟩⟩
    unfold accrualStep
    rw [hsame, if_pos hboundary, accrueEpoch_idle hdone, hsame]
  · refine ⟨none, ?_, .inl rfl⟩
    unfold accrualStep
    rw [hsame, if_neg hboundary]

/-- A block is begun with the accrual step, and the sweep goes on from there. -/
theorem beginBlock_of_accrualStep {accrual : Option AccrualReport}
    (hstep : accrualStep h e block s = (accrual, e', t)) :
    beginBlock h e block s =
      (⟨accrual, (visitEach (sweepVisit h block) e'.book.positions.keys e' t).1⟩,
        (visitEach (sweepVisit h block) e'.book.positions.keys e' t).2) := by
  have hsweep : ∀ step, accrualStep h e block s = step → beginBlock h e block s =
      (⟨step.1, (visitEach (sweepVisit h block) step.2.1.book.positions.keys step.2.1 step.2.2).1⟩,
        (visitEach (sweepVisit h block) step.2.1.book.positions.keys step.2.1 step.2.2).2) := by
    rintro step rfl
    rfl
  exact hsweep _ hstep

end Engine

/-! ## The second report -/

/-- What was done at a block that had been begun before: `first` is what was told then, and from the
engine `e` that it left the second beginning went to `e'`. -/
structure BlockReport.Repeats (first : BlockReport) (e : Engine) (second : BlockReport)
    (e' : Engine) : Prop where
  /-- No accrual is made: either the block begins no epoch, or the epoch has been accrued. -/
  accrual : second.accrual = none ∨ ∃ epoch, second.accrual = some ⟨epoch, true, []⟩
  /-- Whatever is settled, or fails, failed before. -/
  listed : ∀ l ∈ [second.liquidated, second.woundDown, second.tookProfit, second.failed],
    l ⊆ first.failed
  unchanged : ∀ k ∉ first.failed, e'.book.position? k = e.book.position? k

namespace Engine

/-- **Sweeps are stable within a block.** On a host that answers alike in all its states, a block
that is begun again makes no second accrual, and of the positions it touches and lists only those
that failed before. -/
theorem beginBlock_repeats (hx : h.AnswersAlike) (e : Engine) (block : Block) (s : σ) :
    let first := beginBlock h e block s
    let second := beginBlock h first.2.1 block first.2.2
    first.1.Repeats first.2.1 second.1 second.2.1 := by
  intro first second
  have hspared : ∀ k ∉ first.1.failed, Spares h block first.2.1 k :=
    beginBlock_spares hx e block s
  have hjudges : (accrualStep h e block s).2.1.JudgesAlike first.2.1 :=
    sweepVisits_judgesAlike _ _ _
  have hlast : first.2.1.book.lastEpoch = (accrualStep h e block s).2.1.book.lastEpoch :=
    sweepVisits_lastEpoch _ _ _
  -- the second sweep begins where the first ended
  obtain ⟨accrual, hstep, hidle⟩ := accrualStep_again h e block s first.2.2 hjudges.params hlast
  have x := sweepVisits_resweeping hx hspared first.2.2
  have hsecond : second = _ := beginBlock_of_accrualStep hstep
  rw [hsecond]
  exact ⟨hidle, x.listed accrual, x.unchanged⟩

end Engine

end

/-! ## A loss that is taken the second time -/

/-- A host with the answers of one of its states in all of them. -/
def Host.answeringFrom {σ κ : Type} (h : Host σ κ) (s : σ) : Host σ κ :=
  { h with
    route := fun _ => h.route s
    estimateIn := fun _ => h.estimateIn s
    price := fun _ => h.price s
    interestRate := fun _ => h.interestRate s }

namespace Sample

/-- Alice and Bob have open positions. In three months Alice's can only be closed at a loss, while
Bob's stays healthy. -/
def sweepable : Engine × Chain :=
  world
    [.createPool 1 (.tenths 50) true,
     .openPosition opening ⟨1, 0⟩,
     .openPosition { opening with owner := bob, leverage := .tenths 20 } ⟨1, 0⟩]

/-- The chain with steady answers, whose insurance fund takes no losses before the fourth
checkpoint. -/
def steady : Host Chain Chain :=
  { Chain.host.answeringFrom sweepable.2 with
    absorb := fun pool coin chain =>
      if chain.checkpoints < 4 then (.error (.rejected "closed for the day"), chain)
      else Chain.host.absorb pool coin chain }

theorem steady_answersAlike : steady.AnswersAlike :=
  ⟨fun _ _ => rfl, fun _ _ => rfl, fun _ _ => rfl, fun _ _ => rfl⟩

end Sample

namespace Engine

/-- The loss on Alice's position is not taken at first, and it is when the block is begun again.
Bob's position stays open both times. -/
theorem failed_liquidation_is_made_again :
    let first := beginBlock Sample.steady Sample.sweepable.1 ⟨2, 7884000⟩ Sample.sweepable.2
    let second := beginBlock Sample.steady first.2.1 ⟨2, 7884000⟩ first.2.2
    first.1.failed = [⟨Sample.alice, 1⟩] ∧ second.1.liquidated = [⟨Sample.alice, 1⟩] ∧
      second.2.1.book.positions.keys = [⟨Sample.bob, 2⟩] ∧
      first.1.Repeats first.2.1 second.1 second.2.1 :=
  ⟨by decide +kernel, by decide +kernel, by decide +kernel,
    beginBlock_repeats Sample.steady_answersAlike Sample.sweepable.1 _ Sample.sweepable.2⟩

end Engine

end LeveragedLp

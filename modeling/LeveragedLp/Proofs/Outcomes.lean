import LeveragedLp.Proofs.Passes

/-!
# What becomes of an operation

`Outcome` lists all that an operation can come to: it is refused, and nothing that was done stands;
or it did what it was asked for, with the steps of its success where it moved funds. Each case says
what was answered and which engine and host came out, so that what one operation does to a record,
to the epoch or to the parameters is read off its cases (`perform_outcome`), and no later proof
opens an operation for it.

Accruals happen in two operations only, those that come with the tick of a block
(`Operation.tick?`), and these two are never refused.
-/

set_option autoImplicit false

namespace LeveragedLp

open EngineM Engine

namespace Operation

/-- The block of an operation that may run an accrual. -/
def tick? : Operation → Option Block
  | accrueEpoch block => some block
  | beginBlock block => some block
  | _ => none

/-- Whether an operation is about the list of pools. -/
def administersPools : Operation → Bool
  | createPool _ _ _ => true
  | setPoolEnabled _ _ => true
  | closePool _ => true
  | updateLeverageMax _ _ => true
  | registerAmmPools _ => true
  | _ => false

end Operation

/-- What an operation on the engine `e` and the host in state `s` came to: its answer, and the
engine and the host after it. -/
inductive Outcome {σ κ : Type} (h : Host σ κ) (e : Engine) (s : σ) :
    Operation → Except Fault Answer → Engine → σ → Prop
  | refused {op : Operation} {t : σ} (fault : Fault) (fallible : op.tick? = none)
      (rests : h.Rests s t) : Outcome h e s op (.error fault) e t
  | opened {r : OpenRequest} {block : Block} {t : σ} (o : Opening h r block e s t) :
      Outcome h e s (.openPosition r block) (.ok (.opened o.response)) o.after t
  | toppedUp {k : PositionKey} {coin : Coin} {t : σ} (o : TopUp h k coin e s t) :
      Outcome h e s (.addCollateral k coin) (.ok (.topUp o.health)) o.after t
  | closed {k : PositionKey} {block : Block} {p : Position} {t : σ}
      (found : e.book.position k = .ok p)
      (o : Closing h p .user block e (h.checkpoint s).2 t) :
      Outcome h e s (.close k block) (.ok (.closed o.settlement)) o.after t
  | forceClosed {k : PositionKey} {block : Block} {p : Position} {reason : CloseReason} {t : σ}
      (found : e.book.position k = .ok p)
      (judged : e.eligibility h p block s = .ok (.close reason))
      (o : Closing h p reason block e (h.checkpoint s).2 t) :
      Outcome h e s (.forceClose k block) (.ok (.forceClose (.closed o.settlement))) o.after t
  | notEligible {k : PositionKey} {block : Block} (health : Decimal) :
      Outcome h e s (.forceClose k block) (.ok (.forceClose (.notEligible health))) e s
  | accrued (block : Block) :
      Outcome h e s (.accrueEpoch block) (.ok (.accrual (accrueEpoch h e block s).1))
        (accrueEpoch h e block s).2.1 (accrueEpoch h e block s).2.2
  | swept (block : Block) :
      Outcome h e s (.beginBlock block) (.ok (.block (beginBlock h e block s).1))
        (beginBlock h e block s).2.1 (beginBlock h e block s).2.2
  | configured {params : Params} {e' : Engine} (updated : e.updateParams params = .ok e') :
      Outcome h e s (.updateParams params) (.ok .done) e' s
  | administered {op : Operation} {answer : Answer} (pools : Registry Pool)
      (administers : op.administersPools = true) (fits : answer.fits op = true) :
      Outcome h e s op (.ok answer) { e with book := { e.book with pools } } s
  | drained : Outcome h e s .drainEvents (.ok (.events e.events)) e.drain.2 s

namespace Engine

variable {σ κ α : Type} {h : Host σ κ} {op : Operation} {e : Engine} {s : σ}

/-! ## Operations that move funds -/

/-- A computation that fails cleanly is refused, or has the outcome of its success. -/
theorem answerM_outcome {x : EngineM σ α} {form : α → Answer} (hx : FailsCleanly h x)
    (hfallible : op.tick? = none)
    (hok : ∀ a e' t, x (e, s) = (.ok a, e', t) → Outcome h e s op (.ok (form a)) e' t) :
    Outcome h e s op (e.answerM x form s).1 (e.answerM x form s).2.1 (e.answerM x form s).2.2 := by
  unfold answerM
  rcases hres : x (e, s) with ⟨fault | a, e', t⟩
  · obtain ⟨rfl, hrests⟩ := hx e s fault e' t hres
    exact .refused fault hfallible hrests
  · exact hok a e' t hres

theorem forceClose_outcome {k : PositionKey} {block : Block} {outcome : ForceCloseOutcome}
    {e' : Engine} {t : σ} (hforce : forceClose h k block (e, s) = (.ok outcome, e', t)) :
    Outcome h e s (.forceClose k block) (.ok (.forceClose outcome)) e' t := by
  cases outcome with
  | closed settlement =>
      obtain ⟨p, reason, hfound, hjudged, o, rfl, rfl⟩ := forceClose_eq_closed hforce
      exact .forceClosed hfound hjudged o
  | notEligible health =>
      obtain ⟨rfl, rfl⟩ := forceClose_notEligible hforce
      exact .notEligible health

/-! ## Operations on pools -/

/-- An engine that differs in its pools only. -/
def PoolsOnly (e e' : Engine) : Prop :=
  ∃ pools, e' = { e with book := { e.book with pools } }

theorem PoolsOnly.refl (e : Engine) : e.PoolsOnly e := ⟨e.book.pools, rfl⟩

theorem PoolsOnly.trans {e e₁ e₂ : Engine} (x : e.PoolsOnly e₁) (y : e₁.PoolsOnly e₂) :
    e.PoolsOnly e₂ := by
  obtain ⟨pools, rfl⟩ := x
  obtain ⟨pools', rfl⟩ := y
  exact ⟨pools', rfl⟩

theorem withPool_poolsOnly (e : Engine) (pool : Pool) : e.PoolsOnly (e.withPool pool) :=
  ⟨e.book.pools.insert pool, rfl⟩

theorem createPool_poolsOnly {pool : UInt64} {leverageMax : Decimal} {enabled : Bool}
    {e' : Engine} (hcreate : e.createPool pool leverageMax enabled = .ok e') : e.PoolsOnly e' := by
  unfold createPool at hcreate
  obtain ⟨-, hcreate⟩ := refuse_bind_eq_ok.1 hcreate
  obtain ⟨_, -, hcreate⟩ := except_bind_eq_ok.1 hcreate
  cases hcreate
  exact e.withPool_poolsOnly _

theorem setPoolEnabled_poolsOnly {pool : UInt64} {enabled : Bool} {e' : Engine}
    (hset : e.setPoolEnabled pool enabled = .ok e') : e.PoolsOnly e' := by
  obtain ⟨tracked, -, hset⟩ := except_bind_eq_ok.1 hset
  obtain ⟨-, hset⟩ := refuse_bind_eq_ok.1 hset
  cases hset
  exact e.withPool_poolsOnly _

theorem closePool_poolsOnly {pool : UInt64} {e' : Engine} (hclose : e.closePool pool = .ok e') :
    e.PoolsOnly e' := by
  obtain ⟨tracked, -, hclose⟩ := except_bind_eq_ok.1 hclose
  cases hclose
  exact e.withPool_poolsOnly _

theorem updateLeverageMax_poolsOnly {pool : UInt64} {leverageMax : Decimal} {e' : Engine}
    (hupdate : e.updateLeverageMax pool leverageMax = .ok e') : e.PoolsOnly e' := by
  obtain ⟨_, -, hupdate⟩ := except_bind_eq_ok.1 hupdate
  obtain ⟨tracked, -, hupdate⟩ := except_bind_eq_ok.1 hupdate
  cases hupdate
  exact e.withPool_poolsOnly _

theorem trackPools_poolsOnly (leverageMax : Decimal) (pools : List UInt64) (e : Engine) :
    e.PoolsOnly (trackPools leverageMax pools e).2 := by
  induction pools generalizing e with
  | nil => exact .refl e
  | cons pool pools ih =>
      unfold trackPools
      split
      · exact ih e
      · cases hcreate : e.createPool pool leverageMax false with
        | error _ => exact .refl e
        | ok e' => exact (createPool_poolsOnly hcreate).trans (ih e')

theorem answer_outcome {x : Except Fault Engine} (hadministers : op.administersPools = true)
    (hdone : Answer.done.fits op = true) (hok : ∀ e', x = .ok e' → e.PoolsOnly e') :
    Outcome h e s op (e.answer x s).1 (e.answer x s).2.1 (e.answer x s).2.2 := by
  cases x with
  | error fault =>
      refine .refused fault ?_ (.same s)
      cases op <;> first | rfl | cases hadministers
  | ok e' =>
      obtain ⟨pools, rfl⟩ := hok e' rfl
      exact .administered pools hadministers hdone

theorem registerAmmPools_outcome (h : Host σ κ) (leverageMax : Decimal) (e : Engine) (s : σ) :
    Outcome h e s (.registerAmmPools leverageMax)
      (e.perform h (.registerAmmPools leverageMax) s).1
      (e.perform h (.registerAmmPools leverageMax) s).2.1
      (e.perform h (.registerAmmPools leverageMax) s).2.2 := by
  have hpools := trackPools_poolsOnly leverageMax ((h.liquidityPools s).map PoolListing.id) e
  simp only [perform, registerAmmPools]
  rcases hres : trackPools leverageMax ((h.liquidityPools s).map PoolListing.id) e with
    ⟨fault | created, e'⟩
  · -- what fails fails at the first pool, before any was tracked
    have hsame := trackPools_of_error (congrArg Prod.fst hres)
    rw [hres] at hsame
    cases hsame
    exact .refused fault rfl (.same s)
  · rw [hres] at hpools
    obtain ⟨pools, rfl⟩ := hpools
    exact .administered pools rfl rfl

/-! ## All operations -/

theorem updateParams_outcome (h : Host σ κ) (e : Engine) (params : Params) (s : σ) :
    Outcome h e s (.updateParams params) (e.answer (e.updateParams params) s).1
      (e.answer (e.updateParams params) s).2.1 (e.answer (e.updateParams params) s).2.2 := by
  cases hupdate : e.updateParams params with
  | error fault => exact .refused fault rfl (.same s)
  | ok e' => exact .configured hupdate

/-- Every operation comes to one of the outcomes. -/
theorem perform_outcome (h : Host σ κ) (e : Engine) (op : Operation) (s : σ) :
    Outcome h e s op (e.perform h op s).1 (e.perform h op s).2.1 (e.perform h op s).2.2 := by
  cases op with
  | openPosition r block =>
      refine answerM_outcome (openPosition_failsCleanly r block) rfl fun response e' t hopen => ?_
      obtain ⟨o, rfl, rfl⟩ := openPosition_eq_ok hopen
      exact .opened o
  | addCollateral k coin =>
      refine answerM_outcome (addCollateral_failsCleanly k coin) rfl fun health e' t hadd => ?_
      obtain ⟨o, rfl, rfl⟩ := addCollateral_eq_ok hadd
      exact .toppedUp o
  | close k block =>
      refine answerM_outcome (close_failsCleanly k block) rfl fun settlement e' t hclose => ?_
      obtain ⟨p, hfound, o, rfl, rfl⟩ := close_eq_ok hclose
      exact .closed hfound o
  | forceClose k block =>
      exact answerM_outcome (forceClose_failsCleanly k block) rfl fun _ _ _ => forceClose_outcome
  | accrueEpoch block => exact .accrued block
  | beginBlock block => exact .swept block
  | updateParams params => exact updateParams_outcome h e params s
  | createPool pool leverageMax enabled =>
      exact answer_outcome rfl rfl fun _ => createPool_poolsOnly
  | setPoolEnabled pool enabled => exact answer_outcome rfl rfl fun _ => setPoolEnabled_poolsOnly
  | closePool pool => exact answer_outcome rfl rfl fun _ => closePool_poolsOnly
  | updateLeverageMax pool leverageMax =>
      exact answer_outcome rfl rfl fun _ => updateLeverageMax_poolsOnly
  | registerAmmPools leverageMax => exact registerAmmPools_outcome h leverageMax e s
  | drainEvents => exact .drained

/-- What becomes of a request. -/
theorem next_outcome (e : Engine) (q : Request) :
    Outcome q.host e q.state q.op (e.respond q) (e.next q)
      (e.perform q.host q.op q.state).2.2 := perform_outcome q.host e q.op q.state

end Engine

end LeveragedLp

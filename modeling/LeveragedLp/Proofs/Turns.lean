import LeveragedLp.Proofs.Passes

/-!
# The turns of an operation

Every operation is a row of turns, each of which does one thing to the engine: it rests as far as
funds go, tracks or revises a pool, or opens, tops up, charges or closes one position (`Turn`).
What may change where the funds rest is listed too (`Engine.Quiet`): parameters, marks, the epoch,
and the events that tell of a failed accrual or are drained.
Nothing else ever happens to an engine: `perform_turns` takes every operation apart, successful or
not, and counts on the way how many positions it opened and how much interest it charged. What
each turn keeps is kept by every operation and by every run, and no proof about runs has to look
into an operation again.
-/

set_option autoImplicit false

namespace LeveragedLp

open EngineM Engine

/-- Two engines with the same positions and pools that carry unpaid interest alike. The policy may
differ where nothing is carried. -/
structure Engine.SameFunds (e e' : Engine) : Prop where
  positions : e'.book.positions = e.book.positions
  pools : e'.book.pools = e.book.pools
  nextId : e'.book.nextId = e.book.nextId
  policy : e'.params.interestPolicy = e.params.interestPolicy ∨ e.book.positions.toList = []

/-- The changes of an engine that leave its funds alone. -/
inductive Engine.Quiet (op : Operation) (e : Engine) : Engine → Prop
  | same : Quiet op e e
  | params {params : Params} (valid : params.validate = .ok ()) : Quiet op e { e with params }
  | skip {k : PositionKey} {p : Position} (fault : Fault) (found : e.book.position k = .ok p) :
      Quiet op e (e.skip k fault)
  | unmark (k : PositionKey) : Quiet op e { e with book := e.book.unmark k }
  | epoch (epoch : UInt64) : Quiet op e { e with book := e.book.setEpoch epoch }
  | drain (asked : op = .drainEvents) : Quiet op e e.drain.2

/-- Whether an operation may settle positions. -/
def Operation.settles : Operation → Bool
  | close _ _ => true
  | forceClose _ _ => true
  | beginBlock _ => true
  | _ => false

/-- Two records of one pool with the same exposure. The health may have been found anew. A closed
pool stays closed, and it is disabled by the revision that closes it or left as it was. -/
structure Pool.Revises (p q : Pool) : Prop where
  id : q.id = p.id
  leveraged : q.leveraged = p.leveraged
  health : q.health = p.health ∨ ∃ total, p.freePart total = .ok q.health
  closed : p.closed = true → q.closed = true
  disabled : q.closed = true → q.enabled = false ∨ (p.closed = true ∧ q.enabled = p.enabled)

/-- One change of an engine `e` and the host in state `s`, in the course of an operation. The two
numbers tell how many positions it opened and how much interest it charged. -/
inductive Turn {σ κ : Type} (h : Host σ κ) (op : Operation) (e : Engine) (s : σ) :
    Nat → Nat → Engine → σ → Prop
  | rest {e' : Engine} {t : σ} (same : e.SameFunds e') (rests : h.Rests s t)
      (quiet : e.Quiet op e') : Turn h op e s 0 0 e' t
  | track (pool : UInt64) (leverageMax : Decimal) (enabled : Bool)
      (untracked : e.book.pool? pool = none) :
      Turn h op e s 0 0 (e.withPool (.fresh pool leverageMax enabled)) s
  | revise {p q : Pool} (tracked : e.book.pool? p.id = some p) (revises : p.Revises q) :
      Turn h op e s 0 0 (e.withPool q) s
  | openPosition {r : OpenRequest} {block : Block} {t : σ} (asked : op = .openPosition r block)
      (o : Opening h r block e s t) : Turn h op e s 1 0 o.after t
  | topUp {k : PositionKey} {coin : Coin} {t : σ} (asked : op = .addCollateral k coin)
      (o : TopUp h k coin e s t) : Turn h op e s 0 0 o.after t
  | charge {k : PositionKey} {block : Block} {t : σ} (o : Charge h k block e s t) :
      Turn h op e s 0 o.accrual.due.units o.after t
  | close {k : PositionKey} {p : Position} {reason : CloseReason} {block : Block} {t : σ}
      (found : e.book.position k = .ok p) (o : Closing h p reason block e s t)
      (asked : op.settles = true) : Turn h op e s 0 o.accrual.due.units o.after t

/-- Turns one after the other, with their numbers added up. -/
inductive Turns {σ κ : Type} (h : Host σ κ) (op : Operation) (e : Engine) (s : σ) :
    Nat → Nat → Engine → σ → Prop
  | none : Turns h op e s 0 0 e s
  | more {n d n' d' : Nat} {e₁ e₂ : Engine} {s₁ s₂ : σ} (before : Turns h op e s n d e₁ s₁)
      (last : Turn h op e₁ s₁ n' d' e₂ s₂) : Turns h op e s (n + n') (d + d') e₂ s₂

section

variable {σ κ α : Type} {h : Host σ κ} {op : Operation} {e e₁ e₂ : Engine} {s s₁ s₂ t : σ}
variable {n d n₁ d₁ : Nat}

theorem Engine.SameFunds.refl (e : Engine) : e.SameFunds e := ⟨rfl, rfl, rfl, .inl rfl⟩

/-- A change of the events, the marks and the epoch leaves the funds alone. -/
theorem Engine.SameFunds.of_eq {e e' : Engine} (hparams : e'.params = e.params)
    (hpositions : e'.book.positions = e.book.positions) (hpools : e'.book.pools = e.book.pools)
    (hnextId : e'.book.nextId = e.book.nextId) : e.SameFunds e' :=
  ⟨hpositions, hpools, hnextId, .inl (by rw [hparams])⟩

namespace Turn

theorem idle (hrests : h.Rests s t) : Turn h op e s 0 0 e t := .rest (.refl e) hrests .same

theorem turns (x : Turn h op e s n d e₁ s₁) : Turns h op e s n d e₁ s₁ := by
  have hrow := Turns.none.more x
  rw [Nat.zero_add, Nat.zero_add] at hrow
  exact hrow

end Turn

namespace Turns

theorem idle (hrests : h.Rests s t) : Turns h op e s 0 0 e t := (Turn.idle hrests).turns

theorem trans (x : Turns h op e s n d e₁ s₁) (y : Turns h op e₁ s₁ n₁ d₁ e₂ s₂) :
    Turns h op e s (n + n₁) (d + d₁) e₂ s₂ := by
  -- a row grows at its end, so the turns of `y` go one by one behind those of `x`
  induction y with
  | none => exact x
  | more _ last ih =>
      rw [← Nat.add_assoc, ← Nat.add_assoc]
      exact ih.more last

/-- Turns that opened nothing and charged nothing may stand before others. -/
theorem after (x : Turns h op e s 0 0 e₁ s₁) (y : Turns h op e₁ s₁ n d e₂ s₂) :
    Turns h op e s n d e₂ s₂ := by
  have hrow := x.trans y
  rw [Nat.zero_add, Nat.zero_add] at hrow
  exact hrow

/-- And behind others. -/
theorem andThen (x : Turns h op e s n d e₁ s₁) (y : Turns h op e₁ s₁ 0 0 e₂ s₂) :
    Turns h op e s n d e₂ s₂ := x.trans y

end Turns

/-- Only a settlement tells of a close. -/
theorem Turn.tells (x : Turn h op e s n d e₁ s₁) (hsettles : op.settles = false)
    (hdrain : op ≠ .drainEvents) :
    ∃ told, e₁.events = e.events ++ told ∧ told.filter Event.isClose = [] := by
  have hnothing : ∃ told, e.events = e.events ++ told ∧ told.filter Event.isClose = [] :=
    ⟨[], (List.append_nil _).symm, rfl⟩
  cases x with
  | rest same rests quiet =>
      cases quiet with
      | same => exact hnothing
      | params valid => exact hnothing
      | skip fault found => exact ⟨[.interestSkipped _ _ _], rfl, rfl⟩
      | unmark k => exact hnothing
      | epoch epoch => exact hnothing
      | drain asked => exact absurd asked hdrain
  | track pool leverageMax enabled untracked => exact hnothing
  | revise tracked revises => exact hnothing
  | openPosition asked o => exact ⟨[.opened _], rfl, rfl⟩
  | topUp asked o => exact ⟨[.collateralAdded _ _], rfl, rfl⟩
  | charge o => exact hnothing
  | close found o asked =>
      rw [hsettles] at asked
      cases asked

theorem Turns.tells (x : Turns h op e s n d e₁ s₁) (hsettles : op.settles = false)
    (hdrain : op ≠ .drainEvents) :
    ∃ told, e₁.events = e.events ++ told ∧ told.filter Event.isClose = [] := by
  induction x with
  | none => exact ⟨[], (List.append_nil _).symm, rfl⟩
  | more before last ih =>
      obtain ⟨told, hevents, htold⟩ := ih
      obtain ⟨more, hmore, hclose⟩ := last.tells hsettles hdrain
      refine ⟨told ++ more, ?_, ?_⟩
      · rw [hmore, hevents, List.append_assoc]
      · rw [List.filter_append, htold, hclose]
        rfl

end

namespace Engine

variable {σ κ α : Type} {h : Host σ κ} {op : Operation} {e : Engine} {s : σ} {block : Block}

/-! ## Positions -/

/-- What a successful computation does in turns, an atomic one does after a checkpoint. -/
theorem answerM_turns {x : EngineM σ α} {form : α → Answer} (hx : FailsCleanly h x)
    (hok : ∀ a e' t, x (e, s) = (.ok a, e', t) →
      Turns h op e s (form a).openings (form a).charges e' t) :
    Turns h op e s (countOk Answer.openings (e.answerM x form s).1)
      (countOk Answer.charges (e.answerM x form s).1) (e.answerM x form s).2.1
      (e.answerM x form s).2.2 := by
  unfold answerM
  rcases hres : x (e, s) with ⟨fault | a, e', t⟩
  · obtain ⟨rfl, hrests⟩ := hx e s fault e' t hres
    exact .idle hrests
  · exact hok a e' t hres

theorem close_turns {k : PositionKey} {settlement : Settlement} {e' : Engine} {t : σ}
    (hasked : op.settles = true)
    (hclose : close h k block (e, s) = (.ok settlement, e', t)) :
    Turns h op e s 0 settlement.charged e' t := by
  obtain ⟨p, hfound, o, rfl, rfl⟩ := close_eq_ok hclose
  exact .after (.idle (.checkpoint s)) (Turn.close hfound o hasked).turns

theorem forceClose_turns {k : PositionKey} {outcome : ForceCloseOutcome} {e' : Engine} {t : σ}
    (hasked : op.settles = true)
    (hforce : forceClose h k block (e, s) = (.ok outcome, e', t)) :
    Turns h op e s 0 (Answer.forceClose outcome).charges e' t := by
  cases outcome with
  | closed settlement =>
      obtain ⟨p, reason, hfound, -, o, rfl, rfl⟩ := forceClose_eq_closed hforce
      exact .after (.idle (.checkpoint s)) (Turn.close hfound o hasked).turns
  | notEligible _ =>
      obtain ⟨rfl, rfl⟩ := forceClose_notEligible hforce
      exact .none

/-- A visit in the sweep of a block, whatever it finds. -/
theorem sweepVisit_turns (hasked : op.settles = true) (block : Block) (k : PositionKey)
    (e : Engine) (s : σ) :
    Turns h op e s 0
      (countOk (fun settled => (settled.map Settlement.charged).getD 0)
        (sweepVisit h block k e s).1)
      (sweepVisit h block k e s).2.1 (sweepVisit h block k e s).2.2 := by
  rcases sweepVisit_cases h block k e s with ⟨fault, t, hvisit, hrests⟩ | ⟨p, -, -, hvisit⟩ |
    ⟨p, reason, t, o, hfound, -, hvisit⟩
  · rw [hvisit]
    exact .idle hrests
  · rw [hvisit]
    exact .none
  · rw [hvisit]
    exact .after (.idle (.checkpoint s)) (Turn.close hfound o hasked).turns

/-- A visit in the accrual of an epoch: a position is charged and its mark removed, or it is
marked. -/
theorem accrueVisit_turns (op : Operation) (block : Block) {k : PositionKey} {e : Engine}
    (hopen : (e.book.position? k).isSome) (s : σ) :
    Turns h op e s 0 (countOk (fun a => a.due.units) (accrueVisit h block k e s).1)
      (accrueVisit h block k e s).2.1 (accrueVisit h block k e s).2.2 := by
  rcases accrueVisit_cases h block k e s with ⟨t, o, hvisit⟩ | ⟨fault, t, hvisit, hrests⟩
  · rw [hvisit]
    refine .andThen (Turn.turns (.charge o)) (Turn.turns ?_)
    exact .rest (.of_eq rfl rfl rfl rfl) (.same t) (.unmark k)
  · -- the mark and the event are all that is new, and they do not touch the funds
    rw [hvisit]
    obtain ⟨p, hp⟩ := Option.isSome_iff_exists.1 hopen
    have hfound : e.book.position k = .ok p := Book.position_eq_ok.2 hp
    exact Turn.turns (.rest (.of_eq rfl rfl rfl rfl) hrests (.skip fault hfound))

/-- No accrual closes a position. -/
theorem accrueVisit_isSome (h : Host σ κ) (block : Block) (k : PositionKey) {l : PositionKey}
    {e : Engine} (hopen : (e.book.position? l).isSome) (s : σ) :
    ((accrueVisit h block k e s).2.1.book.position? l).isSome := by
  rcases accrueVisit_cases h block k e s with ⟨t, o, hvisit⟩ | ⟨fault, t, hvisit, -⟩
  · rw [hvisit]
    exact Registry.isSome_insert hopen
  · rw [hvisit]
    exact hopen

/-- A pass over positions has the turns of its visits, each of which finds what the visits keep. -/
theorem visitEach_turns {visit : PositionKey → Engine → σ → Except Fault α × Engine × σ}
    {f : α → Nat} {I : Engine → Prop} (ks : List PositionKey)
    (hvisit : ∀ k ∈ ks, ∀ e s, I e → Turns h op e s 0 (countOk f (visit k e s).1)
      (visit k e s).2.1 (visit k e s).2.2 ∧ I (visit k e s).2.1) (e : Engine) (he : I e) (s : σ) :
    Turns h op e s 0 (Visits.total (visitEach visit ks e s).1 f) (visitEach visit ks e s).2.1
      (visitEach visit ks e s).2.2 := by
  induction ks generalizing e s with
  | nil => exact .none
  | cons k ks ih =>
      obtain ⟨hfirst, hkept⟩ := hvisit k List.mem_cons_self e s he
      have hrest := ih (fun l hl => hvisit l (List.mem_cons_of_mem k hl)) _ hkept (visit k e s).2.2
      exact hfirst.trans hrest

/-- All positions are open when their turn in an accrual comes. -/
theorem accrueVisits_turns (op : Operation) (block : Block) (e : Engine) (s : σ) :
    Turns h op e s 0
      (Visits.total (visitEach (accrueVisit h block) e.book.positions.keys e s).1
        fun a => a.due.units)
      (visitEach (accrueVisit h block) e.book.positions.keys e s).2.1
      (visitEach (accrueVisit h block) e.book.positions.keys e s).2.2 := by
  let AllOpen (e' : Engine) : Prop := ∀ k ∈ e.book.positions.keys, (e'.book.position? k).isSome
  refine visitEach_turns (I := AllOpen) _ (fun k hk e' s' hopen => ?_) e ?_ s
  · constructor
    · exact accrueVisit_turns op block (hopen k hk) s'
    · intro l hl
      exact accrueVisit_isSome h block k (hopen l hl) s'
  · intro k hk
    exact Registry.mem_keys.1 hk

theorem sweepVisits_turns (hasked : op.settles = true) (block : Block) (ks : List PositionKey)
    (e : Engine) (s : σ) :
    Turns h op e s 0
      (Visits.total (visitEach (sweepVisit h block) ks e s).1
        fun settled => (settled.map Settlement.charged).getD 0)
      (visitEach (sweepVisit h block) ks e s).2.1 (visitEach (sweepVisit h block) ks e s).2.2 := by
  refine visitEach_turns (I := fun _ => True) ks (fun k _ e' s' _ => ?_) e trivial s
  exact ⟨sweepVisit_turns hasked block k e' s', trivial⟩

/-- What every visit keeps holds at each of them, and what it gives each of them holds of all the
results. -/
theorem visitEach_forall {visit : PositionKey → Engine → σ → Except Fault α × Engine × σ}
    {I : Engine → Prop} {Q : Except Fault α → Prop}
    (hvisit : ∀ k e s, I e → Q (visit k e s).1 ∧ I (visit k e s).2.1) (ks : List PositionKey)
    {e : Engine} (he : I e) (s : σ) : ∀ v ∈ (visitEach visit ks e s).1, Q v.2 := by
  induction ks generalizing e s with
  | nil => exact fun v hv => (List.not_mem_nil hv).elim
  | cons k ks ih =>
      -- what the first visit keeps is what the rest of the pass begins with
      obtain ⟨hfirst, hkept⟩ := hvisit k e s he
      intro v hv
      rcases List.mem_cons.1 hv with rfl | hv
      · exact hfirst
      · exact ih hkept (visit k e s).2.2 v hv

/-! ## Pools -/

/-- A record revised under the number it was found under. -/
theorem revise_turn {pool : UInt64} {p q : Pool} (htracked : e.book.pool pool = .ok p)
    (hrevises : p.Revises q) : Turn h op e s 0 0 (e.withPool q) s := by
  have hget := Book.pool_eq_ok.1 htracked
  have hid : p.id = pool := Registry.key_of_get? hget
  exact .revise (hid ▸ hget) hrevises

theorem revises_of_refresh {p q : Pool} {total : Amount} (hrefresh : p.refresh total = .ok q) :
    p.Revises q := by
  obtain ⟨hq, hhealth⟩ := Pool.refresh_eq_ok hrefresh
  refine ⟨?_, ?_, .inr ⟨total, hhealth⟩, ?_, ?_⟩
  · rw [hq]
  · rw [hq]
  · rw [hq]
    exact id
  · rw [hq]
    exact fun hclosed => .inr ⟨hclosed, rfl⟩

/-- Bringing pools up to date one by one: no two of them are the same pool, so that each is still
as it was when its turn comes. -/
theorem refreshEach_turns (pools : List Pool) (e : Engine)
    (hdistinct : pools.Pairwise fun p q => p.id ≠ q.id)
    (htracked : ∀ p ∈ pools, e.book.pool? p.id = some p) :
    Turns h op e s 0 0 { e with book := pools.foldl (refreshPool h s) e.book } s := by
  induction pools generalizing e with
  | nil => exact .none
  | cons p pools ih =>
      obtain ⟨hne, hdistinct⟩ := List.pairwise_cons.1 hdistinct
      have hp := htracked p List.mem_cons_self
      rw [List.foldl_cons]
      cases hrefresh : h.sharesOf p.id s >>= p.refresh with
      | error _ =>
          -- a pool without an answer is passed over
          have hsame : refreshPool h s e.book p = e.book := by rw [refreshPool, hrefresh]
          rw [hsame]
          exact ih e hdistinct fun q hq => htracked q (List.mem_cons_of_mem p hq)
      | ok q =>
          have hput : refreshPool h s e.book p = (e.withPool q).book := by
            rw [refreshPool, hrefresh]
            rfl
          obtain ⟨total, -, hq⟩ := except_bind_eq_ok.1 hrefresh
          have hrevises := revises_of_refresh hq
          rw [hput]
          refine .after (Turn.revise hp hrevises).turns
            (ih (e.withPool q) hdistinct fun p' hp' => ?_)
          -- the record just filed is not in the way of the others
          have hkey : p'.id ≠ q.id := fun heq => hne p' hp' (hrevises.id ▸ heq.symm)
          exact (Registry.get?_insert_of_ne hkey).trans (htracked p' (List.mem_cons_of_mem p hp'))

theorem refreshPools_turns (e : Engine) (s : σ) : Turns h op e s 0 0 (refreshPools h e s) s := by
  -- the records of a registry come with keys that ascend, so no two are the same pool
  refine refreshEach_turns _ e ?_ fun p hp => Registry.get?_key hp
  exact e.book.pools.ascending.imp fun hab => hab.key_ne

theorem trackPools_turns (op : Operation) (s : σ) (leverageMax : Decimal) (pools : List UInt64)
    (e : Engine) :
    Turns h op e s 0 0 (trackPools leverageMax pools e).2 s := by
  induction pools generalizing e with
  | nil => exact .none
  | cons pool pools ih =>
      unfold trackPools
      split
      · exact ih e
      · next hnew =>
        -- a limit that is not allowed ends the pass here
        rw [createPool_of_untracked (by simpa using hnew)]
        cases checkLeverageMax leverageMax with
        | error _ => exact .none
        | ok _ =>
            have huntracked : e.book.pool? pool = none := by simpa using hnew
            exact .after (Turn.track pool leverageMax false huntracked).turns
              (ih (e.withPool (.fresh pool leverageMax false)))

/-! ## Operations -/

theorem accrueEpoch_turns (op : Operation) (e : Engine) (s : σ) :
    Turns h op e s 0 (accrueEpoch h e block s).1.charged (accrueEpoch h e block s).2.1
      (accrueEpoch h e block s).2.2 := by
  by_cases hdone : e.book.lastEpoch = some (e.params.epochOf block.height)
  · rw [accrueEpoch_idle hdone]
    exact .none
  · unfold accrueEpoch
    rw [if_neg hdone]
    -- the visits, then the epoch noted down, then the pools brought up to date
    have hvisits := accrueVisits_turns (h := h) op block e s
    refine (hvisits.andThen (Turn.rest ?_ (.same _) (.epoch _)).turns).andThen
      (refreshPools_turns _ _)
    exact .of_eq rfl rfl rfl rfl

theorem beginBlock_turns (hasked : op.settles = true) (e : Engine) (s : σ) :
    Turns h op e s 0 (beginBlock h e block s).1.charged (beginBlock h e block s).2.1
      (beginBlock h e block s).2.2 := by
  have hsweep := sweepVisits_turns (h := h) hasked block
  unfold beginBlock
  by_cases hboundary : e.params.isEpochBoundary block.height
  · rw [if_pos hboundary]
    exact (accrueEpoch_turns op e s).trans (hsweep _ _ _)
  · rw [if_neg hboundary]
    exact Turns.none.trans (hsweep _ _ _)

theorem answer_turns {x : Except Fault Engine} (hok : ∀ e', x = .ok e' → Turns h op e s 0 0 e' s) :
    Turns h op e s (countOk Answer.openings (e.answer x s).1)
      (countOk Answer.charges (e.answer x s).1) (e.answer x s).2.1 (e.answer x s).2.2 := by
  cases x with
  | error _ => exact .none
  | ok e' => exact hok e' rfl

/-- The policy changes only where no position is open. -/
theorem updateParams_turns {params : Params} {e' : Engine}
    (hupdate : e.updateParams params = .ok e') : Turns h op e s 0 0 e' s := by
  obtain ⟨_, hvalid, hupdate⟩ := except_bind_eq_ok.1 hupdate
  by_cases hchange : params.interestPolicy ≠ e.params.interestPolicy ∧ 0 < e.book.positions.size
  · rw [if_pos hchange] at hupdate
    cases hupdate
  · rw [if_neg hchange] at hupdate
    cases hupdate
    refine Turn.turns (.rest ⟨rfl, rfl, rfl, ?_⟩ (.same s) (.params hvalid))
    by_cases hpolicy : params.interestPolicy = e.params.interestPolicy
    · exact .inl hpolicy
    · -- another policy was let through because nothing is open
      have hnone : ¬ 0 < e.book.positions.size := fun hopen => hchange ⟨hpolicy, hopen⟩
      exact .inr (List.eq_nil_of_length_eq_zero (Nat.eq_zero_of_not_pos hnone))

theorem createPool_turns {pool : UInt64} {leverageMax : Decimal} {enabled : Bool} {e' : Engine}
    (hcreate : e.createPool pool leverageMax enabled = .ok e') : Turns h op e s 0 0 e' s := by
  cases hpool : e.book.pool? pool with
  | some tracked =>
      unfold createPool at hcreate
      rw [hpool] at hcreate
      cases hcreate
  | none =>
      rw [createPool_of_untracked (by rw [hpool]; rfl)] at hcreate
      cases hmax : checkLeverageMax leverageMax with
      | error _ =>
          rw [hmax] at hcreate
          cases hcreate
      | ok _ =>
          rw [hmax] at hcreate
          cases hcreate
          exact (Turn.track pool leverageMax enabled hpool).turns

theorem setPoolEnabled_turns {pool : UInt64} {enabled : Bool} {e' : Engine}
    (hset : e.setPoolEnabled pool enabled = .ok e') : Turns h op e s 0 0 e' s := by
  obtain ⟨tracked, hpool, hset⟩ := except_bind_eq_ok.1 hset
  obtain ⟨hreopens, hset⟩ := refuse_bind_eq_ok.1 hset
  cases hset
  refine Turn.turns (revise_turn hpool ⟨rfl, rfl, .inl rfl, id, fun hclosed => .inl ?_⟩)
  -- a closed pool may be disabled once more, but is not enabled
  exact Bool.eq_false_iff.2 fun henabled => hreopens ⟨hclosed, henabled⟩

theorem closePool_turns {pool : UInt64} {e' : Engine} (hclose : e.closePool pool = .ok e') :
    Turns h op e s 0 0 e' s := by
  obtain ⟨tracked, hpool, hclose⟩ := except_bind_eq_ok.1 hclose
  cases hclose
  exact Turn.turns (revise_turn hpool ⟨rfl, rfl, .inl rfl, fun _ => rfl, fun _ => .inl rfl⟩)

theorem updateLeverageMax_turns {pool : UInt64} {leverageMax : Decimal} {e' : Engine}
    (hupdate : e.updateLeverageMax pool leverageMax = .ok e') : Turns h op e s 0 0 e' s := by
  obtain ⟨_, -, hupdate⟩ := except_bind_eq_ok.1 hupdate
  obtain ⟨tracked, hpool, hupdate⟩ := except_bind_eq_ok.1 hupdate
  cases hupdate
  have hsame : tracked.Revises { tracked with leverageMax } :=
    ⟨rfl, rfl, .inl rfl, id, fun hclosed => .inr ⟨hclosed, rfl⟩⟩
  exact Turn.turns (revise_turn hpool hsame)

theorem registerAmmPools_turns (leverageMax : Decimal) (e : Engine) (s : σ) :
    Turns h op e s (countOk Answer.openings (e.perform h (.registerAmmPools leverageMax) s).1)
      (countOk Answer.charges (e.perform h (.registerAmmPools leverageMax) s).1)
      (e.perform h (.registerAmmPools leverageMax) s).2.1
      (e.perform h (.registerAmmPools leverageMax) s).2.2 := by
  simp only [perform, registerAmmPools]
  have hturns := trackPools_turns (h := h) op s leverageMax
    ((h.liquidityPools s).map PoolListing.id) e
  revert hturns
  rcases trackPools leverageMax ((h.liquidityPools s).map PoolListing.id) e with ⟨_ | pools, e'⟩
  · exact id
  · exact id

/-- Every operation is a row of turns, whatever it answers. -/
theorem perform_turns (h : Host σ κ) (e : Engine) (op : Operation) (s : σ) :
    Turns h op e s (countOk Answer.openings (e.perform h op s).1)
      (countOk Answer.charges (e.perform h op s).1) (e.perform h op s).2.1
      (e.perform h op s).2.2 := by
  -- what moves funds fails cleanly or has the steps of its success
  cases op with
  | openPosition r block =>
      refine answerM_turns (openPosition_failsCleanly r block) fun response e' t hopen => ?_
      obtain ⟨o, rfl, rfl⟩ := openPosition_eq_ok hopen
      exact (Turn.openPosition rfl o).turns
  | addCollateral k coin =>
      refine answerM_turns (addCollateral_failsCleanly k coin) fun health e' t hadd => ?_
      obtain ⟨o, rfl, rfl⟩ := addCollateral_eq_ok hadd
      exact (Turn.topUp rfl o).turns
  | close k block => exact answerM_turns (close_failsCleanly k block) fun _ _ _ => close_turns rfl
  | forceClose k block =>
      exact answerM_turns (forceClose_failsCleanly k block) fun _ _ _ => forceClose_turns rfl
  | accrueEpoch block => exact accrueEpoch_turns _ e s
  | beginBlock block => exact beginBlock_turns rfl e s
  | updateParams params => exact answer_turns fun _ => updateParams_turns
  | createPool pool leverageMax enabled => exact answer_turns fun _ => createPool_turns
  | setPoolEnabled pool enabled => exact answer_turns fun _ => setPoolEnabled_turns
  | closePool pool => exact answer_turns fun _ => closePool_turns
  | updateLeverageMax pool leverageMax => exact answer_turns fun _ => updateLeverageMax_turns
  | registerAmmPools leverageMax => exact registerAmmPools_turns leverageMax e s
  | drainEvents =>
      exact Turn.turns (.rest (.of_eq rfl rfl rfl rfl) (.same s) (.drain rfl))

end Engine

end LeveragedLp

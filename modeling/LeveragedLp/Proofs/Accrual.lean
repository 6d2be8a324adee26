import LeveragedLp.Proofs.Reachable

/-!
# What a pass of the accrual does

The pass is not undone as a whole when one position fails, so that each visit has to leave the
others alone. `Accruing` is what a pass has done when some visits are made and others are still to
come; a visit that charges its position keeps it (`Accruing.charged`), and so does one that fails
(`Accruing.skipped`). A failed payment is restored, which is why the host shows the payments that
succeeded and nothing else (`Host.PaysInterest`).

The marks for a later attempt come out as the positions skipped in this pass and no others. A mark
from an earlier pass is dealt with when its position is visited, and it is visited because only
open positions are marked (`Book.Orderly`).
-/

set_option autoImplicit false

namespace LeveragedLp

open Engine

/-- From `s` to `t` the host was asked to take the amounts as interest, in this order, and took
each of them; of nothing else `view` shows anything. -/
inductive Host.PaysInterest {σ κ ω : Type} (h : Host σ κ) (view : σ → ω) (s : σ) :
    List Amount → σ → Prop
  | nothing {t : σ} (unseen : view t = view s) : PaysInterest h view s [] t
  | more {amounts : List Amount} {amount : Amount} {t u v w : σ}
      (before : PaysInterest h view s amounts t) (unseen : view u = view t)
      (paid : h.payInterest .engine amount u = (.ok (), v)) (after : view w = view v) :
      PaysInterest h view s (amounts ++ [amount]) w

namespace Visits

/-- The interest paid to the host, in the order of the visits. -/
def payments (v : Visits Accrual) : List Amount :=
  (v.filterMap fun visit => visit.2.toOption).filterMap fun accrual =>
    if accrual.paid.isZero then none else some accrual.paid

/-- What is told of a visit: nothing, unless it failed. -/
def skipEvent? (visit : PositionKey × Except Fault Accrual) : Option Event :=
  match visit.2 with
  | .ok _ => none
  | .error fault => some (.interestSkipped visit.1.id visit.1.owner fault.message)

/-- An event tells of a failed visit of a position, with its fault in words. -/
def TellsOfSkip (v : Visits Accrual) (k : PositionKey) (event : Event) : Prop :=
  ∃ fault, (k, .error fault) ∈ v ∧ event = .interestSkipped k.id k.owner fault.message

end Visits

/-- A pool but for its health. -/
def Pool.apartFromHealth (p : Pool) : Pool := { p with health := .one }

/-- What a pass over all positions did, from the engine `e` and the host in state `s` to the engine
`e'` and the host in state `t`. -/
structure AccrualReport.Exact {σ κ ω : Type} (h : Host σ κ) (view : σ → ω) (e : Engine)
    (block : Block) (s : σ) (r : AccrualReport) (e' : Engine) (t : σ) : Prop where
  accrued_ascending : Ascending r.accrued
  skipped_ascending : Ascending r.skipped
  disjoint : List.Disjoint r.accrued r.skipped
  /-- Every open position is in one of the lists, and nothing else is. -/
  complete : ∀ k, k ∈ r.accrued ∨ k ∈ r.skipped ↔ k ∈ e.book.positions.keys
  retry : e'.book.retry.toList = r.skipped
  lastEpoch : e'.book.lastEpoch = some (e.params.epochOf block.height)
  unchanged : ∀ k ∈ r.skipped, e'.book.position? k = e.book.position? k
  /-- One event for each position skipped, in the order of their keys. -/
  events : ∃ told, e'.events = e.events ++ told ∧
    List.Forall₂ r.visits.TellsOfSkip r.skipped told
  host : h.PaysInterest view s r.visits.payments t
  keys : e'.book.positions.keys = e.book.positions.keys
  nextId : e'.book.nextId = e.book.nextId
  pools : ∀ id, (e'.book.pool? id).map Pool.apartFromHealth =
    (e.book.pool? id).map Pool.apartFromHealth

/-- How far a pass over the positions of `e` has come: some visits are made, and some keys are
still to come. -/
structure Accruing {σ κ ω : Type} (h : Host σ κ) (view : σ → ω) (e : Engine) (s : σ)
    (done : Visits Accrual) (todo : List PositionKey) (e' : Engine) (t : σ) : Prop where
  visited : done.map Prod.fst ++ todo = e.book.positions.keys
  params : e'.params = e.params
  keys : e'.book.positions.keys = e.book.positions.keys
  unchanged : ∀ k ∉ done.keysWhere Except.isOk, e'.book.position? k = e.book.position? k
  /-- A mark is of this pass, or of an earlier one and its position still to come. -/
  marked : ∀ k, k ∈ e'.book.retry.toList ↔
    k ∈ done.keysWhere (fun x => !x.isOk) ∨ (k ∈ todo ∧ k ∈ e.book.retry.toList)
  events : e'.events = e.events ++ done.filterMap Visits.skipEvent?
  host : h.PaysInterest view s done.payments t
  pools : e'.book.pools = e.book.pools
  nextId : e'.book.nextId = e.book.nextId

section

variable {σ κ ω : Type} {h : Host σ κ} {view : σ → ω} {e e' : Engine} {s t u : σ}

/-! ## Payments -/

namespace Host.PaysInterest

variable {amounts : List Amount}

/-- What is not seen may follow. -/
theorem andUnseen (x : h.PaysInterest view s amounts t) (hunseen : view u = view t) :
    h.PaysInterest view s amounts u := by
  cases x with
  | nothing unseen => exact .nothing (hunseen.trans unseen)
  | more before unseen paid after => exact .more before unseen paid (hunseen.trans after)

/-- A payment of interest succeeds at a checkpoint, if there is anything to pay. -/
theorem andPays (hr : h.Restores view) (x : h.PaysInterest view s amounts t) {amount : Amount}
    (hpay : Engine.payInterest h amount t = (.ok (), u)) :
    h.PaysInterest view s (amounts ++ if amount.isZero then [] else [amount]) u := by
  unfold Engine.payInterest at hpay
  by_cases hzero : amount.isZero = true
  · rw [if_pos hzero] at hpay ⊢
    cases hpay
    rw [List.append_nil]
    exact x
  · rw [if_neg hzero] at hpay ⊢
    have hpaid := HostM.moving_eq_ok.1 (Host.atomically_eq_ok.1 hpay)
    exact .more x (hr.checkpoint t) hpaid rfl

end Host.PaysInterest

namespace Visits

variable {v : Visits Accrual} {k : PositionKey}

theorem payments_ok (v : Visits Accrual) (k : PositionKey) (a : Accrual) :
    Visits.payments (v ++ [(k, .ok a)]) =
      v.payments ++ if a.paid.isZero then [] else [a.paid] := by
  unfold payments
  rw [List.filterMap_append, List.filterMap_append]
  congr 1
  by_cases hzero : a.paid.isZero = true
  · simp [Except.toOption, hzero]
  · simp [Except.toOption, hzero]

theorem payments_error (v : Visits Accrual) (k : PositionKey) (fault : Fault) :
    Visits.payments (v ++ [(k, .error fault)]) = v.payments := by
  unfold payments
  rw [List.filterMap_append, List.filterMap_append]
  exact List.append_nil _

/-- The events of the failed visits stand in the order of their keys. -/
theorem skipEvents_forall₂ (v : Visits Accrual) :
    List.Forall₂ v.TellsOfSkip (v.keysWhere fun x => !x.isOk) (v.filterMap skipEvent?) := by
  induction v with
  | nil => exact .nil
  | cons visit v ih =>
      obtain ⟨k, result⟩ := visit
      have hrest : List.Forall₂ (TellsOfSkip ((k, result) :: v))
          (Visits.keysWhere v fun x => !x.isOk) (v.filterMap skipEvent?) := by
        refine ih.imp fun l event => ?_
        rintro ⟨fault, hmem, hevent⟩
        exact ⟨fault, List.mem_cons_of_mem (k, result) hmem, hevent⟩
      cases result with
      | ok a => exact hrest
      | error fault => exact .cons ⟨fault, List.mem_cons_self, rfl⟩ hrest

end Visits

/-! ## One visit -/

namespace Accruing

variable {done : Visits Accrual} {k : PositionKey} {todo : List PositionKey} {block : Block}

theorem start (e : Engine) (s : σ) (horderly : e.book.Orderly) :
    Accruing h view e s [] e.book.positions.keys e s where
  visited := rfl
  params := rfl
  keys := rfl
  unchanged := fun _ _ => rfl
  marked := by
    intro k
    constructor
    · intro hk
      exact .inr ⟨Registry.mem_keys.2 (horderly.marks k hk), hk⟩
    · rintro (hk | ⟨-, hk⟩)
      · exact (List.not_mem_nil hk).elim
      · exact hk
  events := (List.append_nil _).symm
  host := .nothing rfl
  pools := rfl
  nextId := rfl

/-- The position about to be visited was not visited before and will not be again. -/
theorem fresh (x : Accruing h view e s done (k :: todo) e' t) :
    k ∉ done.map Prod.fst ∧ k ∉ todo := by
  have hnodup : (done.map Prod.fst ++ k :: todo).Nodup := by
    rw [x.visited]
    exact (Registry.keys_ascending _).nodup
  obtain ⟨-, hrest, hapart⟩ := List.nodup_append.1 hnodup
  constructor
  · intro hk
    exact hapart k hk k List.mem_cons_self rfl
  · exact (List.nodup_cons.1 hrest).1

theorem visited_next (x : Accruing h view e s done (k :: todo) e' t) (r : Except Fault Accrual) :
    List.map Prod.fst (done ++ [(k, r)]) ++ todo = e.book.positions.keys := by
  rw [← x.visited, List.map_append, List.append_assoc]
  rfl

theorem charged (hr : h.Restores view) (x : Accruing h view e s done (k :: todo) e' t)
    (o : Charge h k block e' t u) :
    Accruing h view e s (done ++ [(k, .ok o.accrual)]) todo
      { o.after with book := o.after.book.unmark k } u := by
  have hcontinues := (planEpoch_eq_ok o.plan_eq).toContinues
  have hkey := o.key_eq
  constructor
  case visited => exact x.visited_next _
  case params => exact x.params
  case keys =>
    -- the record takes the place of the earlier one
    have hold := hcontinues.get?_key o.found_eq
    exact (Registry.keys_insert (Option.isSome_of_eq_some hold)).trans x.keys
  case unchanged =>
    intro l hl
    rw [Visits.keysWhere_append, List.mem_append, not_or] at hl
    have hne : l ≠ o.position.key := by
      rw [hkey]
      rintro rfl
      exact hl.2 (Visits.mem_keysWhere.2 ⟨_, List.mem_cons_self, rfl⟩)
    exact (Registry.get?_insert_of_ne hne).trans (x.unchanged l hl.1)
  case marked =>
    intro l
    have hmarks : l ∈ (e'.book.retry.erase k).toList ↔ _ :=
      Registry.mem_toList_erase.trans (and_congr_left' (x.marked l))
    have hadded : Visits.keysWhere (done ++ [(k, .ok o.accrual)]) (fun x => !x.isOk) =
        done.keysWhere fun x => !x.isOk := by
      rw [Visits.keysWhere_append]
      exact List.append_nil _
    show l ∈ (e'.book.retry.erase k).toList ↔ _
    rw [hmarks, hadded]
    constructor
    · rintro ⟨hl | ⟨hl, hold⟩, hne⟩
      · exact .inl hl
      · exact .inr ⟨(List.mem_cons.1 hl).resolve_left hne, hold⟩
    · rintro (hl | ⟨hl, hold⟩)
      · refine ⟨.inl hl, ?_⟩
        rintro rfl
        exact x.fresh.1 (Visits.keysWhere_subset hl)
      · refine ⟨.inr ⟨List.mem_cons_of_mem k hl, hold⟩, ?_⟩
        rintro rfl
        exact x.fresh.2 hl
  case events =>
    rw [List.filterMap_append]
    exact x.events.trans (congrArg _ (List.append_nil _).symm)
  case host =>
    rw [Visits.payments_ok]
    exact x.host.andPays hr o.pay_eq
  case pools => exact x.pools
  case nextId => exact x.nextId

theorem skipped (hr : h.Restores view) (x : Accruing h view e s done (k :: todo) e' t)
    (fault : Fault) (hrests : h.Rests t u) :
    Accruing h view e s (done ++ [(k, .error fault)]) todo (e'.skip k fault) u := by
  have hadded : Visits.keysWhere (done ++ [(k, .error fault)]) (fun x => !x.isOk) =
      (done.keysWhere fun x => !x.isOk) ++ [k] := Visits.keysWhere_append _ _ _
  have hsame : Visits.keysWhere (done ++ [(k, .error fault)]) Except.isOk =
      done.keysWhere Except.isOk := by
    rw [Visits.keysWhere_append]
    exact List.append_nil _
  constructor
  case visited => exact x.visited_next _
  case params => exact x.params
  case keys => exact x.keys
  case unchanged =>
    rw [hsame]
    exact x.unchanged
  case marked =>
    intro l
    show l ∈ (e'.book.retry.insert k).toList ↔ _
    rw [Registry.mem_toList_insert, x.marked, hadded, List.mem_append, List.mem_singleton]
    constructor
    · rintro (rfl | ⟨hl | ⟨hl, hold⟩, hne⟩)
      · exact .inl (.inr rfl)
      · exact .inl (.inl hl)
      · exact .inr ⟨(List.mem_cons.1 hl).resolve_left hne, hold⟩
    · rintro ((hl | rfl) | ⟨hl, hold⟩)
      · by_cases hne : l = k
        · exact .inl hne
        · exact .inr ⟨.inl hl, hne⟩
      · exact .inl rfl
      · by_cases hne : l = k
        · exact .inl hne
        · exact .inr ⟨.inr ⟨List.mem_cons_of_mem k hl, hold⟩, hne⟩
  case events =>
    rw [List.filterMap_append, ← List.append_assoc, ← x.events]
    rfl
  case host =>
    rw [Visits.payments_error]
    exact x.host.andUnseen (hr.view_eq hrests)
  case pools => exact x.pools
  case nextId => exact x.nextId

end Accruing

/-! ## All visits -/

namespace Engine

theorem accrueVisits_accruing (hr : h.Restores view) (horderly : e.book.Orderly) (block : Block)
    (s : σ) :
    Accruing h view e s (visitEach (accrueVisit h block) e.book.positions.keys e s).1 []
      (visitEach (accrueVisit h block) e.book.positions.keys e s).2.1
      (visitEach (accrueVisit h block) e.book.positions.keys e s).2.2 := by
  refine visitEach_induction (P := Accruing h view e s) ?_ _ [] e s (.start e s horderly)
  intro done k todo e' t x
  rcases accrueVisit_cases h block k e' t with ⟨u, o, hvisit⟩ | ⟨fault, u, hvisit, hrests⟩
  · rw [hvisit]
    exact x.charged hr o
  · rw [hvisit]
    exact x.skipped hr fault hrests

/-- Bringing one pool up to date changes nothing but its health. -/
theorem refreshPool_apartFromHealth {b : Book} {pool : Pool} (id : UInt64)
    (htracked : (b.pool? pool.id).map Pool.apartFromHealth = some pool.apartFromHealth) :
    ((refreshPool h s b pool).pool? id).map Pool.apartFromHealth =
      (b.pool? id).map Pool.apartFromHealth := by
  unfold refreshPool
  cases hrefresh : h.sharesOf pool.id s >>= pool.refresh with
  | error _ => rfl
  | ok refreshed =>
      obtain ⟨total, -, hrefresh⟩ := except_bind_eq_ok.1 hrefresh
      have hrefreshed := (Pool.refresh_eq_ok hrefresh).1
      have hid : refreshed.id = pool.id := by rw [hrefreshed]
      by_cases hpool : id = refreshed.id
      · have hfiled : (b.putPool refreshed).pool? id = some refreshed := by
          rw [hpool]
          exact Registry.get?_insert_self _ _
        have hsame : refreshed.apartFromHealth = pool.apartFromHealth := by
          rw [hrefreshed]
          rfl
        show ((b.putPool refreshed).pool? id).map _ = _
        rw [hfiled, hpool, hid, htracked, Option.map_some, hsame]
      · have hother : (b.putPool refreshed).pool? id = b.pool? id :=
          Registry.get?_insert_of_ne hpool
        show ((b.putPool refreshed).pool? id).map _ = _
        rw [hother]

theorem refreshEach_apartFromHealth (id : UInt64) (pools : List Pool) (b : Book)
    (htracked : ∀ p ∈ pools,
      (b.pool? p.id).map Pool.apartFromHealth = some p.apartFromHealth) :
    ((pools.foldl (refreshPool h s) b).pool? id).map Pool.apartFromHealth =
      (b.pool? id).map Pool.apartFromHealth := by
  induction pools generalizing b with
  | nil => rfl
  | cons p pools ih =>
      have hp := htracked p List.mem_cons_self
      rw [List.foldl_cons, ih, refreshPool_apartFromHealth id hp]
      -- the others are tracked as before
      intro q hq
      rw [refreshPool_apartFromHealth q.id hp]
      exact htracked q (List.mem_cons_of_mem p hq)

theorem refreshPools_apartFromHealth (e : Engine) (s : σ) (id : UInt64) :
    ((refreshPools h e s).book.pool? id).map Pool.apartFromHealth =
      (e.book.pool? id).map Pool.apartFromHealth := by
  refine refreshEach_apartFromHealth id _ e.book fun p hp => ?_
  exact congrArg _ (Registry.get?_key hp)

/-- Beside the pools nothing is touched. -/
theorem refreshPools_eq (e : Engine) (s : σ) :
    refreshPools h e s =
      { e with book := { e.book with pools := (refreshPools h e s).book.pools } } := by
  have hbook : ∀ (pools : List Pool) (b : Book), pools.foldl (refreshPool h s) b =
      { b with pools := (pools.foldl (refreshPool h s) b).pools } := by
    intro pools
    induction pools with
    | nil => exact fun b => rfl
    | cons p pools ih =>
        intro b
        rw [List.foldl_cons, ih]
        unfold refreshPool
        cases h.sharesOf p.id s >>= p.refresh with
        | error _ => rfl
        | ok refreshed => rfl
  unfold refreshPools
  rw [hbook]

end Engine

/-- When all visits are made, the epoch is noted down and the pools are brought up to date. -/
theorem Accruing.exact {done : Visits Accrual} (x : Accruing h view e s done [] e' t)
    (block : Block) :
    AccrualReport.Exact h view e block s ⟨e.params.epochOf block.height, false, done⟩
      (refreshPools h { e' with book := e'.book.setEpoch (e.params.epochOf block.height) } t)
      t := by
  have hvisited : done.map Prod.fst = e.book.positions.keys := by
    have hall := x.visited
    rwa [List.append_nil] at hall
  have hascending : Ascending (done.map Prod.fst) := by
    rw [hvisited]
    exact Registry.keys_ascending _
  have hskipped : Ascending (done.keysWhere fun x => !x.isOk) :=
    Visits.keysWhere_ascending hascending
  rw [refreshPools_eq]
  constructor
  case accrued_ascending => exact Visits.keysWhere_ascending hascending
  case skipped_ascending => exact hskipped
  case disjoint =>
    refine Visits.disjoint_keysWhere hascending.nodup fun result hok => ?_
    rw [hok]
    rfl
  case complete =>
    intro k
    rw [← hvisited]
    exact Visits.mem_keysWhere_or_not
  case retry =>
    -- nothing is still to come, so the marks are those of this pass
    refine Ascending.ext e'.book.retry.ascending hskipped fun k => ?_
    have hmarked := x.marked k
    rwa [or_iff_left fun hk => List.not_mem_nil hk.1] at hmarked
  case lastEpoch => rfl
  case unchanged =>
    intro k hk
    refine x.unchanged k fun hok => ?_
    obtain ⟨result, hresult, hfailed⟩ := Visits.mem_keysWhere.1 hk
    obtain ⟨other, hother, hok⟩ := Visits.mem_keysWhere.1 hok
    rw [Visits.eq_of_mem hascending.nodup hresult hother, hok] at hfailed
    cases hfailed
  case events => exact ⟨_, x.events, Visits.skipEvents_forall₂ done⟩
  case host => exact x.host
  case keys => exact x.keys
  case nextId => exact x.nextId
  case pools =>
    intro id
    refine (refreshPools_apartFromHealth _ t id).trans ?_
    show (e'.book.pools.get? id).map _ = _
    rw [x.pools]
    rfl

namespace Engine

theorem accrueEpoch_params (h : Host σ κ) (e : Engine) (block : Block) (s : σ) :
    (accrueEpoch h e block s).2.1.params = e.params := by
  by_cases hdone : e.book.lastEpoch = some (e.params.epochOf block.height)
  · rw [accrueEpoch_idle hdone]
  · have hvisits : (visitEach (accrueVisit h block) e.book.positions.keys e s).2.1.params =
        e.params := by
      refine visitEach_induction (P := fun _ _ e' _ => e'.params = e.params) ?_ _ [] e s rfl
      exact fun done k todo e' t hsame => (accrueVisit_params h block k e' t).trans hsame
    unfold accrueEpoch
    rw [if_neg hdone]
    show (refreshPools h _ _).params = _
    rw [refreshPools_eq]
    exact hvisits

/-- An accrual leaves the parameters as they are, and all positions open. -/
theorem accrueEpoch_keeps (hr : h.Restores view) (horderly : e.book.Orderly) (block : Block)
    (s : σ) :
    (accrueEpoch h e block s).2.1.params = e.params ∧
      (accrueEpoch h e block s).2.1.book.positions.keys = e.book.positions.keys := by
  refine ⟨accrueEpoch_params h e block s, ?_⟩
  by_cases hdone : e.book.lastEpoch = some (e.params.epochOf block.height)
  · rw [accrueEpoch_idle hdone]
  · have hpass := accrueVisits_accruing hr horderly block s
    unfold accrueEpoch
    rw [if_neg hdone]
    show (refreshPools h _ _).book.positions.keys = _
    rw [refreshPools_eq]
    exact hpass.keys

/-- **Accrual isolates failures.** Whenever an accrual makes a pass, it charges or skips each open
position and tells which; the skipped ones are just as before, and are the ones marked for a later
attempt; and the host shows the payments of the charged ones and nothing else. -/
theorem accrueEpoch_exact (hr : h.Restores view) (he : e.Reachable) (block : Block) (s : σ)
    (hran : (accrueEpoch h e block s).1.alreadyAccrued = false) :
    AccrualReport.Exact h view e block s (accrueEpoch h e block s).1
      (accrueEpoch h e block s).2.1 (accrueEpoch h e block s).2.2 := by
  by_cases hdone : e.book.lastEpoch = some (e.params.epochOf block.height)
  · have hidle : accrueEpoch h e block s =
        (⟨e.params.epochOf block.height, true, []⟩, e, s) := if_pos hdone
    rw [hidle] at hran
    cases hran
  · have hpass := (accrueVisits_accruing hr he.orderly block s).exact block
    unfold accrueEpoch
    rw [if_neg hdone]
    exact hpass

/-- Alice's interest was paid when the payment reported a failure. She is skipped and marked, and
Bob, who has nothing to pay with, is charged. -/
theorem late_failure_of_payment_skips_alice :
    let world := Sample.world
      [.createPool 1 (.tenths 50) true,
       .openPosition Sample.opening ⟨1, 0⟩,
       .openPosition { Sample.opening with owner := Sample.bob, leverage := .tenths 20 } ⟨1, 0⟩,
       .addCollateral ⟨Sample.alice, 1⟩ ⟨.usdc, { units := 60 }⟩]
    let chain := world.2.fail ⟨.payInterest, .rejected "closed for the day", true⟩
    let pass := accrueEpoch Chain.host world.1 ⟨2, 788400⟩ chain
    pass.1.accrued = [⟨Sample.bob, 2⟩] ∧ pass.1.skipped = [⟨Sample.alice, 1⟩] ∧
      AccrualReport.Exact Chain.host uncounted world.1 ⟨2, 788400⟩ chain pass.1 pass.2.1 pass.2.2 :=
  ⟨by decide +kernel, by decide +kernel,
    accrueEpoch_exact host_restores (Sample.world_reachable _) _ _ (by decide +kernel)⟩

end Engine

end

end LeveragedLp

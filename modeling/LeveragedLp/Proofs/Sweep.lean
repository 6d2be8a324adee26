import LeveragedLp.Proofs.Accrual
import LeveragedLp.Proofs.Judgement

/-!
# What the sweep of a block does

A sweep visits the positions that were open when it began, in the order of their keys, and each
visit finds what the settlements before it left. `Sweeping` is what a sweep has done when some
visits are made: what was settled is gone and told of, and every other record is as it was. Since
no key is visited twice, removing one position or failing at another keeps no third one from its
visit, and what a visit decided still holds of the book at the end.
-/

set_option autoImplicit false

namespace LeveragedLp

open Engine

/-! ## What a report says -/

namespace Visits

/-- The settlement that a visit made, if it made one. -/
def settled? : Except Fault (Option Settlement) → Option Settlement
  | .ok settled => settled
  | .error _ => none

/-- Whether a visit settled its position. -/
def isSettled (x : Except Fault (Option Settlement)) : Bool := (settled? x).any fun _ => true

/-- The settlements that the visits made. -/
def settlements (v : Visits (Option Settlement)) : List Settlement :=
  v.filterMap fun visit => settled? visit.2

variable {v : Visits (Option Settlement)} {k : PositionKey} {t : Settlement}

theorem settled?_eq_some {x : Except Fault (Option Settlement)} :
    settled? x = some t ↔ x = .ok (some t) := by
  rcases x with fault | settled
  · simp [settled?]
  · simp [settled?]

theorem mem_settlements : t ∈ v.settlements ↔ ∃ k, (k, .ok (some t)) ∈ v := by
  unfold settlements
  rw [List.mem_filterMap]
  constructor
  · rintro ⟨⟨k, x⟩, hmem, ht⟩
    have hx : x = .ok (some t) := settled?_eq_some.1 ht
    rw [hx] at hmem
    exact ⟨k, hmem⟩
  · rintro ⟨k, hmem⟩
    exact ⟨_, hmem, rfl⟩

theorem mem_keysWhere_isSettled :
    k ∈ v.keysWhere isSettled ↔ ∃ t, (k, .ok (some t)) ∈ v := by
  rw [mem_keysWhere]
  constructor
  · rintro ⟨_ | _ | t, hmem, hsettled⟩
    · cases hsettled
    · cases hsettled
    · exact ⟨t, hmem⟩
  · rintro ⟨t, hmem⟩
    exact ⟨_, hmem, rfl⟩

theorem settlements_append (v w : Visits (Option Settlement)) :
    Visits.settlements (v ++ w) = v.settlements ++ w.settlements := List.filterMap_append

/-- Where every settlement is of the position that was visited, the keys of the visits that made
certain settlements are those of the settlements. -/
theorem keysWhere_settled (hkeys : ∀ k t, (k, .ok (some t)) ∈ v → t.position.key = k)
    (P : Settlement → Bool) :
    v.keysWhere (fun x => (settled? x).any P) =
      (v.settlements.filter P).map fun t => t.position.key := by
  induction v with
  | nil => rfl
  | cons visit v ih =>
      have hrest := ih fun l t hmem => hkeys l t (List.mem_cons_of_mem visit hmem)
      rcases visit with ⟨k, _ | _ | t⟩
      · exact hrest
      · exact hrest
      · have hkey := hkeys k t List.mem_cons_self
        have hmore : Visits.settlements ((k, .ok (some t)) :: v) = t :: Visits.settlements v := rfl
        rw [hmore]
        by_cases hP : P t = true
        · have hthis : Visits.keysWhere ((k, .ok (some t)) :: v) (fun x => (settled? x).any P) =
              k :: Visits.keysWhere v fun x => (settled? x).any P := by
            simp [keysWhere, settled?, hP]
          rw [hthis, hrest, List.filter_cons_of_pos hP, List.map_cons, hkey]
        · have hnot : Visits.keysWhere ((k, .ok (some t)) :: v) (fun x => (settled? x).any P) =
              Visits.keysWhere v fun x => (settled? x).any P := by
            simp [keysWhere, settled?, hP]
          rw [hnot, hrest, List.filter_cons_of_neg hP]

end Visits

namespace BlockReport

variable {r : BlockReport} {k : PositionKey} {reason : CloseReason}

/-- The positions that the report says are gone. -/
def removed (r : BlockReport) : List PositionKey := r.liquidated ++ r.woundDown ++ r.tookProfit

/-- An event tells of the close of a position, for the reason that the report gives. -/
def TellsOfClose (r : BlockReport) (k : PositionKey) (event : Event) : Prop :=
  ∃ (summary : PositionSummary) (reason : CloseReason), k ∈ r.settledFor reason ∧
    summary.owner = k.owner ∧ summary.id = k.id ∧ event = .ofClose summary reason

theorem mem_settledFor :
    k ∈ r.settledFor reason ↔ ∃ t, (k, .ok (some t)) ∈ r.visits ∧ t.reason = reason := by
  unfold settledFor
  rw [Visits.mem_keysWhere]
  constructor
  · rintro ⟨_ | _ | t, hmem, hreason⟩
    · cases hreason
    · cases hreason
    · exact ⟨t, hmem, eq_of_beq hreason⟩
  · rintro ⟨t, hmem, hreason⟩
    exact ⟨.ok (some t), hmem, beq_iff_eq.2 hreason⟩

/-- The positions settled for a reason are those of the settlements with the reason. -/
theorem settledFor_eq (hkeys : ∀ k t, (k, .ok (some t)) ∈ r.visits → t.position.key = k)
    (reason : CloseReason) :
    r.settledFor reason =
      (r.visits.settlements.filter fun t => t.reason == reason).map fun t => t.position.key := by
  refine Eq.trans ?_ (Visits.keysWhere_settled hkeys fun t => t.reason == reason)
  unfold settledFor
  congr 1
  funext x
  rcases x with _ | _ | t
  · rfl
  · rfl
  · rfl

/-- One position is not settled for two reasons. -/
theorem disjoint_settledFor (hnodup : (r.visits.map Prod.fst).Nodup) {other : CloseReason}
    (hne : reason ≠ other) : List.Disjoint (r.settledFor reason) (r.settledFor other) := by
  intro k hk hother
  obtain ⟨t, ht, hreason⟩ := mem_settledFor.1 hk
  obtain ⟨u, hu, hotherReason⟩ := mem_settledFor.1 hother
  cases Visits.eq_of_mem hnodup ht hu
  exact hne (hreason.symm.trans hotherReason)

/-- Nor is one that was settled among those that failed. -/
theorem disjoint_failed (hnodup : (r.visits.map Prod.fst).Nodup) :
    List.Disjoint (r.settledFor reason) r.failed := by
  intro k hk hfailed
  obtain ⟨t, ht, -⟩ := mem_settledFor.1 hk
  obtain ⟨x, hx, hfailed⟩ := Visits.mem_keysWhere.1 hfailed
  rw [← Visits.eq_of_mem hnodup ht hx] at hfailed
  cases hfailed

/-- All four lists of a report are in the order of the visits. -/
theorem lists_ascending (hascending : Ascending (r.visits.map Prod.fst)) :
    ∀ l ∈ [r.liquidated, r.woundDown, r.tookProfit, r.failed],
      Ascending l ∧ l ⊆ r.visits.map Prod.fst := by
  have hlist : ∀ P, Ascending (r.visits.keysWhere P) ∧
      r.visits.keysWhere P ⊆ r.visits.map Prod.fst :=
    fun P => ⟨Visits.keysWhere_ascending hascending, Visits.keysWhere_subset⟩
  have hsettled : ∀ reason, Ascending (r.settledFor reason) ∧
      r.settledFor reason ⊆ r.visits.map Prod.fst := fun reason => hlist _
  simp only [List.forall_mem_cons, List.not_mem_nil, false_imp_iff, implies_true, and_true]
  exact ⟨hsettled _, hsettled _, hsettled _, hlist _⟩

theorem lists_disjoint (hnodup : (r.visits.map Prod.fst).Nodup) :
    [r.liquidated, r.woundDown, r.tookProfit, r.failed].Pairwise List.Disjoint := by
  simp only [List.pairwise_cons, List.forall_mem_cons, List.not_mem_nil, false_imp_iff,
    implies_true, List.Pairwise.nil, and_true]
  refine ⟨⟨?_, ?_, disjoint_failed hnodup⟩, ⟨?_, disjoint_failed hnodup⟩, disjoint_failed hnodup⟩
  · exact disjoint_settledFor hnodup (by decide)
  · exact disjoint_settledFor hnodup (by decide)
  · exact disjoint_settledFor hnodup (by decide)

end BlockReport

/-! ## One sweep -/

section

variable {σ κ ω : Type} (h : Host σ κ) (view : σ → ω) (e : Engine) (block : Block) (s : σ)

namespace Engine

/-- What is done at a block before the sweep. -/
def accrualStep : Option AccrualReport × Engine × σ :=
  if e.params.isEpochBoundary block.height then
    let (report, e', t) := accrueEpoch h e block s
    (some report, e', t)
  else (none, e, s)

/-- The visits of the sweep of a block. -/
def sweepMoments : List (Moment σ) :=
  let (_, e₁, s₁) := accrualStep h e block s
  moments (sweepVisit h block) e₁.book.positions.keys e₁ s₁

/-- A sweep has no reason to settle a position: its pool is not closed, it is above the threshold
with the interest charged that a settlement would charge, and its custody has not reached a take
profit price. -/
structure Keeps (p : Position) : Prop where
  pool : e.InOpenPool p
  health : ∃ health, e.dueHealth h p block s = .ok health ∧
    e.params.liquidationThreshold < health
  takeProfit : ∀ target, p.takeProfit = some target →
    ∃ price, e.priceOf h p.custody.denom s = .ok price ∧ price < target

end Engine

/-- What was done at a block, from the engine `e` and the host in state `s` to the engine `e'`. -/
structure BlockReport.Exact (r : BlockReport) (e' : Engine) : Prop where
  ascending : ∀ l ∈ [r.liquidated, r.woundDown, r.tookProfit, r.failed],
    Ascending l ∧ l ⊆ e.book.positions.keys
  disjoint : [r.liquidated, r.woundDown, r.tookProfit, r.failed].Pairwise List.Disjoint
  keys : e'.book.positions.keys = e.book.positions.keys.filter (· ∉ r.removed)
  /-- What is told has one close for each position removed, in the order of their keys. -/
  events : ∃ told, e'.events = e.events ++ told ∧
    List.Forall₂ r.TellsOfClose (e.book.positions.keys.filter (· ∈ r.removed))
      (told.filter Event.isClose)
  unchanged : ∀ k ∈ e'.book.positions.keys,
    e'.book.position? k = (accrualStep h e block s).2.1.book.position? k
  /-- Each position is visited once. -/
  visited : (sweepMoments h e block s).map Moment.key = e.book.positions.keys
  failed : ∀ m ∈ sweepMoments h e block s, m.key ∈ r.failed →
    (m.visited (sweepVisit h block)).2.1 = m.engine ∧
      view (m.visited (sweepVisit h block)).2.2 = view m.host
  kept : ∀ k ∈ e'.book.positions.keys, k ∉ r.failed →
    ∃ m ∈ sweepMoments h e block s, m.key = k ∧ m.engine.params = e.params ∧
      ∃ p, e'.book.position k = .ok p ∧ m.engine.book.position k = .ok p ∧
        m.engine.Keeps h block m.host p

end

/-- How far a sweep of the positions of `e` has come. -/
structure Sweeping (e : Engine) (done : Visits (Option Settlement)) (e' : Engine) : Prop where
  params : e'.params = e.params
  keys : ∀ k t, (k, .ok (some t)) ∈ done → t.position.key = k
  reasons : ∀ t ∈ done.settlements, t.reason ≠ .user
  book : ∀ k, e'.book.position? k =
    if k ∈ done.keysWhere Visits.isSettled then none else e.book.position? k
  events : e'.events = e.events ++ done.settlements.flatMap Settlement.events

section

variable {σ κ ω : Type} {h : Host σ κ} {view : σ → ω} {e e' : Engine} {block : Block} {s t : σ}

/-! ## One visit -/

namespace Sweeping

variable {done : Visits (Option Settlement)} {k : PositionKey}

theorem start (e : Engine) : Sweeping e [] e where
  params := rfl
  keys := fun _ _ hmem => (List.not_mem_nil hmem).elim
  reasons := fun _ hmem => (List.not_mem_nil hmem).elim
  book := fun _ => rfl
  events := (List.append_nil _).symm

/-- A visit that settles nothing is only noted down. -/
theorem note (x : Sweeping e done e') {result : Except Fault (Option Settlement)}
    (hnone : Visits.settled? result = none) : Sweeping e (done ++ [(k, result)]) e' := by
  have hsame : Visits.settlements (done ++ [(k, result)]) = done.settlements := by
    rw [Visits.settlements_append]
    simp [Visits.settlements, hnone]
  have hkeys : Visits.keysWhere (done ++ [(k, result)]) Visits.isSettled =
      done.keysWhere Visits.isSettled := by
    rw [Visits.keysWhere_append]
    simp [Visits.keysWhere, Visits.isSettled, hnone]
  constructor
  case params => exact x.params
  case keys =>
    intro l t hmem
    rcases List.mem_append.1 hmem with hmem | hmem
    · exact x.keys l t hmem
    · cases List.mem_singleton.1 hmem
      cases hnone
  case reasons =>
    rw [hsame]
    exact x.reasons
  case book =>
    rw [hkeys]
    exact x.book
  case events =>
    rw [hsame]
    exact x.events

/-- A settlement takes its position off the book and leaves the others. -/
theorem settle (x : Sweeping e done e') {p : Position} {reason : CloseReason}
    (hfound : e'.book.position k = .ok p) (huser : reason ≠ .user)
    (o : Closing h p reason block e' s t) :
    Sweeping e (done ++ [(k, .ok (some o.settlement))]) o.after := by
  have hkey := o.key_of_found hfound
  have hmore : Visits.settlements (done ++ [(k, .ok (some o.settlement))]) =
      done.settlements ++ [o.settlement] := Visits.settlements_append _ _
  have hkeys : Visits.keysWhere (done ++ [(k, .ok (some o.settlement))]) Visits.isSettled =
      done.keysWhere Visits.isSettled ++ [k] := Visits.keysWhere_append _ _ _
  constructor
  case params => exact x.params
  case keys =>
    intro l t hmem
    rcases List.mem_append.1 hmem with hmem | hmem
    · exact x.keys l t hmem
    · cases List.mem_singleton.1 hmem
      exact hkey
  case reasons =>
    intro t ht
    rw [hmore] at ht
    rcases List.mem_append.1 ht with ht | ht
    · exact x.reasons t ht
    · cases List.mem_singleton.1 ht
      exact huser
  case book =>
    intro l
    rw [hkeys]
    show (e'.book.positions.erase o.settlement.position.key).get? l = _
    rw [hkey]
    by_cases hl : l = k
    · rw [hl, Registry.get?_erase_self, if_pos (List.mem_append_right _ List.mem_cons_self)]
    · have hothers : l ∈ done.keysWhere Visits.isSettled ++ [k] ↔
          l ∈ done.keysWhere Visits.isSettled := by simp [hl]
      rw [Registry.get?_erase_of_ne hl]
      simp only [hothers]
      exact x.book l
  case events =>
    rw [o.after_events, x.events, hmore, List.flatMap_append, List.flatMap_singleton,
      List.append_assoc]

/-! ## All visits -/

theorem removed_iff (x : Sweeping e done e') {accrual : Option AccrualReport} :
    k ∈ BlockReport.removed ⟨accrual, done⟩ ↔ k ∈ done.keysWhere Visits.isSettled := by
  unfold BlockReport.removed
  rw [List.mem_append, List.mem_append, Visits.mem_keysWhere_isSettled]
  constructor
  · intro hk
    have hsettled : ∃ reason, k ∈ BlockReport.settledFor ⟨accrual, done⟩ reason := by
      rcases hk with (hk | hk) | hk
      · exact ⟨_, hk⟩
      · exact ⟨_, hk⟩
      · exact ⟨_, hk⟩
    obtain ⟨reason, hk⟩ := hsettled
    obtain ⟨t, ht, -⟩ := BlockReport.mem_settledFor.1 hk
    exact ⟨t, ht⟩
  · rintro ⟨t, hmem⟩
    -- nobody asked for the close, so one of the three reasons is left
    have huser := x.reasons t (Visits.mem_settlements.2 ⟨k, hmem⟩)
    have hk : k ∈ BlockReport.settledFor ⟨accrual, done⟩ t.reason :=
      BlockReport.mem_settledFor.2 ⟨t, hmem, rfl⟩
    cases hreason : t.reason with
    | user => exact absurd hreason huser
    | liquidation =>
        rw [hreason] at hk
        exact .inl (.inl hk)
    | poolWindDown =>
        rw [hreason] at hk
        exact .inl (.inr hk)
    | takeProfit =>
        rw [hreason] at hk
        exact .inr hk

/-- A position still open was not settled, and its record is as it was. -/
theorem of_open (x : Sweeping e done e') (hopen : (e'.book.position? k).isSome) :
    k ∉ done.keysWhere Visits.isSettled ∧ e'.book.position? k = e.book.position? k := by
  have hbook := x.book k
  by_cases hk : k ∈ done.keysWhere Visits.isSettled
  · rw [if_pos hk] at hbook
    rw [hbook] at hopen
    cases hopen
  · rw [if_neg hk] at hbook
    exact ⟨hk, hbook⟩

/-- Exactly the positions that were settled are not open any more. -/
theorem isSome_iff (x : Sweeping e done e') : (e'.book.position? k).isSome ↔
    (e.book.position? k).isSome ∧ k ∉ done.keysWhere Visits.isSettled := by
  constructor
  · intro hopen
    obtain ⟨hk, hsame⟩ := x.of_open hopen
    rw [hsame] at hopen
    exact ⟨hopen, hk⟩
  · rintro ⟨hopen, hk⟩
    rw [x.book, if_neg hk]
    exact hopen

/-- When all positions were visited, those that the report does not name are left. -/
theorem keys_eq (x : Sweeping e done e') (accrual : Option AccrualReport) :
    e'.book.positions.keys =
      e.book.positions.keys.filter (· ∉ BlockReport.removed ⟨accrual, done⟩) := by
  refine (Registry.keys_ascending _).ext
    ((Registry.keys_ascending _).sublist List.filter_sublist) fun k => ?_
  rw [List.mem_filter, decide_eq_true_iff, x.removed_iff, Registry.mem_keys, Registry.mem_keys]
  exact x.isSome_iff

/-- The others are those that were settled. -/
theorem removed_eq (x : Sweeping e done e')
    (hvisited : done.map Prod.fst = e.book.positions.keys) (accrual : Option AccrualReport) :
    e.book.positions.keys.filter (· ∈ BlockReport.removed ⟨accrual, done⟩) =
      done.keysWhere Visits.isSettled := by
  have hascending : Ascending (done.map Prod.fst) := by
    rw [hvisited]
    exact Registry.keys_ascending _
  rw [← hvisited]
  refine (hascending.sublist List.filter_sublist).ext
    (Visits.keysWhere_ascending hascending) fun k => ?_
  rw [List.mem_filter, decide_eq_true_iff, x.removed_iff]
  exact and_iff_right_of_imp fun hk => Visits.keysWhere_subset hk

end Sweeping

/-- Among the events of settlements there is one close for each of them. -/
theorem Settlement.closes_eq (ts : List Settlement) :
    (ts.flatMap Settlement.events).filter Event.isClose = ts.map Settlement.event := by
  induction ts with
  | nil => rfl
  | cons t ts ih => rw [List.flatMap_cons, List.filter_append, ih, t.events_filter_isClose]; rfl

theorem Sweeping.tellsOfCloses {done : Visits (Option Settlement)} (x : Sweeping e done e')
    (accrual : Option AccrualReport) :
    List.Forall₂ (BlockReport.TellsOfClose ⟨accrual, done⟩) (done.keysWhere Visits.isSettled)
      ((done.settlements.flatMap Settlement.events).filter Event.isClose) := by
  have hkeys : done.keysWhere Visits.isSettled =
      done.settlements.map fun t => t.position.key := by
    have hall := Visits.keysWhere_settled x.keys fun _ => true
    rwa [List.filter_eq_self.2 fun _ _ => rfl] at hall
  rw [hkeys, Settlement.closes_eq, List.forall₂_map_left_iff, List.forall₂_map_right_iff,
    List.forall₂_same]
  intro t ht
  obtain ⟨k, hmem⟩ := Visits.mem_settlements.1 ht
  refine ⟨t.position.summary t.repaid, t.reason, ?_, rfl, rfl, rfl⟩
  rw [x.keys k t hmem]
  exact BlockReport.mem_settledFor.2 ⟨t, hmem, rfl⟩

namespace Engine

variable {ks : List PositionKey}

theorem sweepVisits_sweeping (ks : List PositionKey) (e : Engine) (s : σ) :
    Sweeping e (visitEach (sweepVisit h block) ks e s).1
      (visitEach (sweepVisit h block) ks e s).2.1 := by
  refine visitEach_induction (P := fun done _ e' _ => Sweeping e done e') ?_ ks [] e s (.start e)
  intro done k todo e' t x
  rcases sweepVisit_cases h block k e' t with ⟨fault, u, hvisit, -⟩ | ⟨p, -, -, hvisit⟩ |
    ⟨p, reason, u, o, hfound, hreason, hvisit⟩
  · rw [hvisit]
    exact x.note rfl
  · rw [hvisit]
    exact x.note rfl
  · rw [hvisit]
    exact x.settle hfound (sweepReason_ne_user hreason) o

/-- At all moments of a sweep the parameters are the same, the book is in order, and the positions
on it are as they were when the sweep began. -/
structure Within (e e' : Engine) : Prop where
  params : e'.params = e.params
  orderly : e'.book.Orderly
  positions : ∀ k p, e'.book.position k = .ok p → e.book.position k = .ok p

theorem Within.visited (x : Within e e') (k : PositionKey) (s : σ) :
    Within e (sweepVisit h block k e' s).2.1 := by
  rcases sweepVisit_engine h block k e' s with hsame | ⟨p, reason, u, o, -, hafter⟩
  · rw [hsame]
    exact x
  · rw [hafter]
    exact ⟨x.params, o.orderly x.orderly, fun l q hq => x.positions l q (o.position_of_after hq)⟩

theorem sweepMoments_within (horderly : e.book.Orderly) :
    ∀ m ∈ moments (sweepVisit h block) ks e s, Within e m.engine :=
  moments_forall (I := Within e) (fun k _ s' x => x.visited k s') ⟨rfl, horderly, fun _ _ => id⟩

/-- A visit whose key is among the failed leaves everything as it was. -/
theorem sweep_failed (hr : h.Restores view) (hnodup : ks.Nodup) {m : Moment σ}
    (hm : m ∈ moments (sweepVisit h block) ks e s)
    (hfailed : m.key ∈ (visitEach (sweepVisit h block) ks e s).1.keysWhere fun x => !x.isOk) :
    (m.visited (sweepVisit h block)).2.1 = m.engine ∧
      view (m.visited (sweepVisit h block)).2.2 = view m.host := by
  -- the failed result under this key is the result of this visit
  obtain ⟨x, hx, hfailed⟩ := Visits.mem_keysWhere.1 hfailed
  have hvisits : ((visitEach (sweepVisit h block) ks e s).1.map Prod.fst).Nodup := by
    rw [visitEach_keys]
    exact hnodup
  rw [Visits.eq_of_mem hvisits hx (mem_visitEach hm)] at hfailed
  unfold Moment.visited at hfailed ⊢
  rcases sweepVisit_cases h block m.key m.engine m.host with ⟨fault, u, hvisit, hrests⟩ |
    ⟨p, -, -, hvisit⟩ | ⟨p, reason, u, o, -, -, hvisit⟩
  · rw [hvisit]
    exact ⟨rfl, hr.view_eq hrests⟩
  · rw [hvisit] at hfailed
    cases hfailed
  · rw [hvisit] at hfailed
    cases hfailed

/-- A visit that neither failed nor settled its position found no reason to. -/
theorem sweep_kept {m : Moment σ} (horderly : m.engine.book.Orderly)
    (hfailed : (m.visited (sweepVisit h block)).1.isOk = true)
    (hsettled : Visits.isSettled (m.visited (sweepVisit h block)).1 = false) :
    ∃ p, m.engine.book.position m.key = .ok p ∧ m.engine.Keeps h block m.host p := by
  unfold Moment.visited at hfailed hsettled
  rcases sweepVisit_cases h block m.key m.engine m.host with ⟨fault, u, hvisit, -⟩ |
    ⟨p, hfound, hreason, hvisit⟩ | ⟨p, reason, u, o, -, -, hvisit⟩
  · rw [hvisit] at hfailed
    cases hfailed
  · obtain ⟨health, hjudged, hprofit⟩ := sweepReason_eq_none hreason
    obtain ⟨hclosed, hhealth, hlt⟩ := eligibility_eq_healthy hjudged
    have htracked := horderly.tracked p (Registry.mem_toList_of_get? (Book.position_eq_ok.1 hfound))
    exact ⟨p, hfound, any_closed_eq_false htracked hclosed, ⟨health, hhealth, hlt⟩, hprofit⟩
  · rw [hvisit] at hsettled
    cases hsettled

/-- The sweep of a block begins where the accrual ended. -/
theorem beginBlock_sweeping (h : Host σ κ) (e : Engine) (block : Block) (s : σ) :
    Sweeping (accrualStep h e block s).2.1 (beginBlock h e block s).1.visits
      (beginBlock h e block s).2.1 := sweepVisits_sweeping _ _ _

theorem accrualStep_params (h : Host σ κ) (e : Engine) (block : Block) (s : σ) :
    (accrualStep h e block s).2.1.params = e.params := by
  unfold accrualStep
  by_cases hboundary : e.params.isEpochBoundary block.height
  · rw [if_pos hboundary]
    exact accrueEpoch_params h e block s
  · rw [if_neg hboundary]

/-- What is done before the sweep leaves the parameters as they are and all positions open. -/
theorem accrualStep_keeps (hr : h.Restores view) (horderly : e.book.Orderly) (block : Block)
    (s : σ) :
    (accrualStep h e block s).2.1.params = e.params ∧
      (accrualStep h e block s).2.1.book.positions.keys = e.book.positions.keys ∧
      (accrualStep h e block s).2.1.book.Orderly := by
  refine ⟨accrualStep_params h e block s, ?_⟩
  unfold accrualStep
  by_cases hboundary : e.params.isEpochBoundary block.height
  · rw [if_pos hboundary]
    have hkeys := (accrueEpoch_keeps hr horderly block s).2
    exact ⟨hkeys, (accrueEpoch_turns (.accrueEpoch block) e s).orderly horderly⟩
  · rw [if_neg hboundary]
    exact ⟨rfl, horderly⟩

/-- It tells of no close. -/
theorem accrualStep_tells (h : Host σ κ) (e : Engine) (block : Block) (s : σ) :
    ∃ told, (accrualStep h e block s).2.1.events = e.events ++ told ∧
      told.filter Event.isClose = [] := by
  unfold accrualStep
  by_cases hboundary : e.params.isEpochBoundary block.height
  · rw [if_pos hboundary]
    exact (accrueEpoch_turns (.accrueEpoch block) e s).tells rfl Operation.noConfusion
  · rw [if_neg hboundary]
    exact ⟨[], (List.append_nil _).symm, rfl⟩

/-- So the closes that are told of at a block are those of the sweep. -/
theorem beginBlock_tells (h : Host σ κ) (e : Engine) (block : Block) (s : σ) :
    ∃ told, (beginBlock h e block s).2.1.events = e.events ++ told ∧
      told.filter Event.isClose =
        ((beginBlock h e block s).1.visits.settlements.flatMap Settlement.events).filter
          Event.isClose := by
  have x := beginBlock_sweeping h e block s
  obtain ⟨told, hevents, hclose⟩ := accrualStep_tells h e block s
  refine ⟨told ++ (beginBlock h e block s).1.visits.settlements.flatMap Settlement.events, ?_, ?_⟩
  · rw [← List.append_assoc, ← hevents]
    exact x.events
  · rw [List.filter_append, hclose, List.nil_append]

/-- **The sweep is complete and exact.** The report names each position that was settled, with the
reason, and each that could not be; those settled are gone, each with one event of its close;
nothing else changed on the book; and every other position was found to be healthy, in a pool that
is not closed, and short of its take profit price. -/
theorem beginBlock_exact (hr : h.Restores view) (he : e.Reachable) (block : Block) (s : σ) :
    BlockReport.Exact h view e block s (beginBlock h e block s).1
      (beginBlock h e block s).2.1 := by
  obtain ⟨hparams, hkeys, horderly⟩ := accrualStep_keeps hr he.orderly block s
  let e₁ := (accrualStep h e block s).2.1
  let s₁ := (accrualStep h e block s).2.2
  let v := (visitEach (sweepVisit h block) e₁.book.positions.keys e₁ s₁).1
  let e₂ := (visitEach (sweepVisit h block) e₁.book.positions.keys e₁ s₁).2.1
  let r : BlockReport := ⟨(accrualStep h e block s).1, v⟩
  show BlockReport.Exact h view e block s r e₂
  have x : Sweeping e₁ v e₂ := sweepVisits_sweeping _ e₁ s₁
  have hvisited : v.map Prod.fst = e₁.book.positions.keys := visitEach_keys _ e₁ s₁
  have hascending : Ascending (v.map Prod.fst) := by
    rw [hvisited]
    exact Registry.keys_ascending _
  constructor
  case ascending =>
    rw [← hkeys]
    exact hvisited ▸ BlockReport.lists_ascending hascending
  case disjoint => exact BlockReport.lists_disjoint hascending.nodup
  case keys =>
    rw [← hkeys]
    exact x.keys_eq _
  case events =>
    obtain ⟨told, hevents, hcloses⟩ := beginBlock_tells h e block s
    refine ⟨told, hevents, ?_⟩
    rw [hcloses, ← hkeys, x.removed_eq hvisited]
    exact x.tellsOfCloses _
  case unchanged =>
    intro k hk
    exact (x.of_open (Registry.mem_keys.1 hk)).2
  case visited => exact (moments_keys _ e₁ s₁).trans hkeys
  case failed =>
    intro m hm hfailed
    exact sweep_failed hr (Registry.keys_ascending _).nodup hm hfailed
  case kept =>
    intro k hk hfailed
    obtain ⟨hopen, hsettled⟩ := x.isSome_iff.1 (Registry.mem_keys.1 hk)
    -- the position was open when the sweep began, so it was visited
    have hmoment : k ∈ (sweepMoments h e block s).map Moment.key := by
      show k ∈ (moments _ _ e₁ s₁).map Moment.key
      rw [moments_keys]
      exact Registry.mem_keys.2 hopen
    obtain ⟨m, hm, rfl⟩ := List.mem_map.1 hmoment
    have hwithin := sweepMoments_within horderly m hm
    have hvisit := mem_visitEach hm
    have hok : (m.visited (sweepVisit h block)).1.isOk = true := by
      by_contra hnot
      exact hfailed (Visits.mem_keysWhere.2 ⟨_, hvisit, by simpa using hnot⟩)
    have hopenStill : Visits.isSettled (m.visited (sweepVisit h block)).1 = false := by
      by_contra hnot
      exact hsettled (Visits.mem_keysWhere.2 ⟨_, hvisit, by simpa using hnot⟩)
    obtain ⟨p, hfound, hkeeps⟩ := sweep_kept hwithin.orderly hok hopenStill
    -- the record it was judged by is the one that is left
    have hleft : e₂.book.position m.key = .ok p := by
      have hbegun := Book.position_eq_ok.1 (hwithin.positions _ _ hfound)
      exact Book.position_eq_ok.2 ((x.of_open (Registry.mem_keys.1 hk)).2.trans hbegun)
    exact ⟨m, hm, rfl, hwithin.params.trans hparams, p, hleft, hfound, hkeeps⟩

/-- Three positions in turn: Alice's can only be closed at a loss that the insurance fund does not
take, the first of Bob's has reached its take profit price, and the second is healthy. -/
theorem sweep_goes_on_after_failure :
    let world := Sample.world
      [.createPool 1 (.tenths 50) true,
       .openPosition Sample.opening ⟨1, 0⟩,
       .openPosition { Sample.opening with
         owner := Sample.bob, leverage := .tenths 20, takeProfit := some (.tenths 11) } ⟨1, 0⟩,
       .openPosition { Sample.opening with owner := Sample.bob, leverage := .tenths 20 } ⟨1, 0⟩]
    let chain := (world.2.setPrice (.poolShare 1) (.tenths 12)).fail
      ⟨.absorb, .rejected "closed for the day", true⟩
    let swept := beginBlock Chain.host world.1 ⟨2, 7884000⟩ chain
    swept.1.failed = [⟨Sample.alice, 1⟩] ∧ swept.1.tookProfit = [⟨Sample.bob, 2⟩] ∧
      swept.2.1.book.positions.keys = [⟨Sample.alice, 1⟩, ⟨Sample.bob, 3⟩] ∧
      BlockReport.Exact Chain.host uncounted world.1 ⟨2, 7884000⟩ chain swept.1 swept.2.1 :=
  ⟨by decide +kernel, by decide +kernel, by decide +kernel,
    beginBlock_exact host_restores (Sample.world_reachable _) _ _⟩

end Engine

end

end LeveragedLp

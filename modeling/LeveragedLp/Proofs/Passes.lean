import LeveragedLp.Proofs.Effects
import LeveragedLp.Proofs.Keys
import LeveragedLp.Proofs.Rollback

/-!
# Passes over the positions

The accrual of an epoch and the sweep of a block visit a list of keys in turn. What a pass does is
known from what one visit does: `accrueVisit_cases` and `sweepVisit_cases` say all that a visit can
come to, and `visitEach_induction` carries a fact about the visits made and the keys still to come
through a pass. `moments` lists the engine and the host that each visit found, so that it can be
said what was true when a position was visited.
-/

set_option autoImplicit false

namespace LeveragedLp

open EngineM Engine

/-! ## The keys of a pass -/

namespace Visits

variable {α : Type} {v : Visits α} {k : PositionKey} {P Q : Except Fault α → Bool}

theorem mem_keysWhere : k ∈ v.keysWhere P ↔ ∃ x, (k, x) ∈ v ∧ P x = true := by
  unfold keysWhere
  rw [List.mem_map]
  constructor
  · rintro ⟨⟨l, x⟩, hmem, rfl⟩
    obtain ⟨hv, hP⟩ := List.mem_filter.1 hmem
    exact ⟨x, hv, hP⟩
  · rintro ⟨x, hv, hP⟩
    exact ⟨(k, x), List.mem_filter.2 ⟨hv, hP⟩, rfl⟩

theorem keysWhere_append (v w : Visits α) (P : Except Fault α → Bool) :
    Visits.keysWhere (v ++ w) P = v.keysWhere P ++ w.keysWhere P := by
  unfold keysWhere
  rw [List.filter_append, List.map_append]

theorem keysWhere_ascending (h : Ascending (v.map Prod.fst)) : Ascending (v.keysWhere P) := by
  apply h.sublist
  exact List.filter_sublist.map Prod.fst

theorem keysWhere_subset : v.keysWhere P ⊆ v.map Prod.fst := by
  intro k hk
  obtain ⟨x, hv, -⟩ := mem_keysWhere.1 hk
  exact List.mem_map.2 ⟨(k, x), hv, rfl⟩

/-- A condition and its negation together select all keys. -/
theorem mem_keysWhere_or_not :
    k ∈ v.keysWhere P ∨ k ∈ v.keysWhere (fun x => !P x) ↔ k ∈ v.map Prod.fst := by
  constructor
  · rintro (hk | hk)
    · exact keysWhere_subset hk
    · exact keysWhere_subset hk
  · intro hk
    obtain ⟨⟨l, x⟩, hv, rfl⟩ := List.mem_map.1 hk
    cases hP : P x with
    | true => exact .inl (mem_keysWhere.2 ⟨x, hv, hP⟩)
    | false => exact .inr (mem_keysWhere.2 ⟨x, hv, by rw [hP]; rfl⟩)

/-- No key is visited twice, so a key has one result. -/
theorem eq_of_mem (hnodup : (v.map Prod.fst).Nodup) {x y : Except Fault α} (hx : (k, x) ∈ v)
    (hy : (k, y) ∈ v) : x = y := by
  have hsame : (k, x) = (k, y) := List.inj_on_of_nodup_map hnodup hx hy rfl
  exact (Prod.mk.inj hsame).2

/-- Conditions that exclude each other select different keys. -/
theorem disjoint_keysWhere (hnodup : (v.map Prod.fst).Nodup)
    (hexclude : ∀ x, P x = true → Q x = false) :
    List.Disjoint (v.keysWhere P) (v.keysWhere Q) := by
  intro k hkP hkQ
  obtain ⟨x, hx, hP⟩ := mem_keysWhere.1 hkP
  obtain ⟨y, hy, hQ⟩ := mem_keysWhere.1 hkQ
  rw [eq_of_mem hnodup hy hx, hexclude x hP] at hQ
  cases hQ

end Visits

/-! ## The moments of a pass -/

/-- A visit about to be made: the key, and the engine and the host as the visits before it left
them. -/
structure Moment (σ : Type) where
  key : PositionKey
  engine : Engine
  host : σ

section

variable {σ α : Type} (visit : PositionKey → Engine → σ → Except Fault α × Engine × σ)

/-- What the visit does. -/
def Moment.visited (m : Moment σ) : Except Fault α × Engine × σ := visit m.key m.engine m.host

/-- The moments of a pass, in the order of the visits. -/
def moments : List PositionKey → Engine → σ → List (Moment σ)
  | [], _, _ => []
  | k :: ks, e, s => ⟨k, e, s⟩ :: moments ks (visit k e s).2.1 (visit k e s).2.2

variable {visit} {ks : List PositionKey} {e : Engine} {s : σ}

/-- The results of a pass are those of its moments. -/
theorem visitEach_eq_map (ks : List PositionKey) (e : Engine) (s : σ) :
    (visitEach visit ks e s).1 =
      (moments visit ks e s).map fun m => (m.key, (m.visited visit).1) := by
  induction ks generalizing e s with
  | nil => rfl
  | cons k ks ih =>
      have hrest := ih (visit k e s).2.1 (visit k e s).2.2
      show (k, (visit k e s).1) :: (visitEach visit ks _ _).1 = _
      rw [hrest]
      rfl

theorem moments_keys (ks : List PositionKey) (e : Engine) (s : σ) :
    (moments visit ks e s).map Moment.key = ks := by
  induction ks generalizing e s with
  | nil => rfl
  | cons k ks ih =>
      show k :: (moments visit ks _ _).map Moment.key = _
      rw [ih]

theorem visitEach_keys (ks : List PositionKey) (e : Engine) (s : σ) :
    (visitEach visit ks e s).1.map Prod.fst = ks := by
  rw [visitEach_eq_map, List.map_map]
  exact moments_keys ks e s

theorem mem_visitEach {m : Moment σ} (hm : m ∈ moments visit ks e s) :
    (m.key, (m.visited visit).1) ∈ (visitEach visit ks e s).1 := by
  rw [visitEach_eq_map]
  exact List.mem_map.2 ⟨m, hm, rfl⟩

/-- What every visit keeps holds at every moment. -/
theorem moments_forall {I : Engine → Prop} (hkept : ∀ k e s, I e → I (visit k e s).2.1)
    (he : I e) : ∀ m ∈ moments visit ks e s, I m.engine := by
  induction ks generalizing e s with
  | nil =>
      intro m hm
      cases hm
  | cons k ks ih =>
      intro m hm
      rcases List.mem_cons.1 hm with rfl | hm
      · exact he
      · exact ih (hkept k e s he) m hm

/-- A fact about the visits made, the keys still to come, the engine and the host holds at the end
of a pass, if every visit keeps it. -/
theorem visitEach_induction {P : Visits α → List PositionKey → Engine → σ → Prop}
    (hvisit : ∀ done k todo e s, P done (k :: todo) e s →
      P (done ++ [(k, (visit k e s).1)]) todo (visit k e s).2.1 (visit k e s).2.2)
    (ks : List PositionKey) (done : Visits α) (e : Engine) (s : σ) (hstart : P done ks e s) :
    P (done ++ (visitEach visit ks e s).1) [] (visitEach visit ks e s).2.1
      (visitEach visit ks e s).2.2 := by
  induction ks generalizing done e s with
  | nil =>
      show P (done ++ []) [] e s
      rw [List.append_nil]
      exact hstart
  | cons k ks ih =>
      -- the first visit joins those made, and the rest of the pass goes on from there
      have hrest := ih _ _ _ (hvisit done k ks e s hstart)
      rw [List.append_assoc] at hrest
      exact hrest

end

/-! ## What a visit comes to -/

namespace Engine

variable {σ κ : Type} (h : Host σ κ) (block : Block) (k : PositionKey) (e : Engine) (s : σ)

/-- A visit of the accrual charges the position and takes its mark off, or it changes nothing but
that it marks the position and tells why. -/
theorem accrueVisit_cases :
    (∃ t, ∃ o : Charge h k block e s t, accrueVisit h block k e s =
      (.ok o.accrual, { o.after with book := o.after.book.unmark k }, t)) ∨
    (∃ fault t, accrueVisit h block k e s = (.error fault, e.skip k fault, t) ∧ h.Rests s t) := by
  unfold accrueVisit
  rcases haccrue : accruePosition h k block (e, s) with ⟨fault | accrual, e', t⟩
  · obtain ⟨rfl, hrests⟩ := accruePosition_failsCleanly k block e s fault e' t haccrue
    exact .inr ⟨fault, t, rfl, hrests⟩
  · obtain ⟨o, rfl, rfl⟩ := accruePosition_eq_ok haccrue
    exact .inl ⟨t, o, rfl⟩

/-- A visit of the accrual leaves the parameters as they are. -/
theorem accrueVisit_params : (accrueVisit h block k e s).2.1.params = e.params := by
  rcases accrueVisit_cases h block k e s with ⟨t, o, hvisit⟩ | ⟨fault, t, hvisit, -⟩
  · rw [hvisit]
    rfl
  · rw [hvisit]
    rfl

/-- In the epoch that was accrued last an accrual does nothing, and says so. -/
theorem accrueEpoch_idle {h : Host σ κ} {block : Block} {e : Engine} {s : σ}
    (hdone : e.book.lastEpoch = some (e.params.epochOf block.height)) :
    accrueEpoch h e block s = (⟨e.params.epochOf block.height, true, []⟩, e, s) := if_pos hdone

/-- A visit of the sweep fails and changes nothing, or finds no reason to settle and does nothing,
or settles the position for the reason that it found. -/
theorem sweepVisit_cases :
    (∃ fault t, sweepVisit h block k e s = (.error fault, e, t) ∧ h.Rests s t) ∨
    (∃ p, e.book.position k = .ok p ∧ e.sweepReason h p block s = .ok none ∧
      sweepVisit h block k e s = (.ok none, e, s)) ∨
    (∃ p reason t, ∃ o : Closing h p reason block e (h.checkpoint s).2 t,
      e.book.position k = .ok p ∧ e.sweepReason h p block s = .ok (some reason) ∧
      sweepVisit h block k e s = (.ok (some o.settlement), o.after, t)) := by
  unfold sweepVisit
  rcases hsweep : sweepPosition h k block (e, s) with ⟨fault | settled, e', t⟩
  · obtain ⟨rfl, hrests⟩ := sweepPosition_failsCleanly k block e s fault e' t hsweep
    exact .inl ⟨fault, t, rfl, hrests⟩
  · -- judging the position reads only, so the settlement is all that is done
    simp only [sweepPosition, asking_bind_eq_ok] at hsweep
    obtain ⟨p, hfound, reason, hreason, hsweep⟩ := hsweep
    cases reason with
    | none =>
        cases hsweep
        exact .inr (.inl ⟨p, hfound, hreason, rfl⟩)
    | some reason =>
        obtain ⟨settlement, ⟨e₁, s₁⟩, hsettle, hlast⟩ := HostM.bind_eq_ok.1 hsweep
        cases hlast
        obtain ⟨o, rfl, rfl⟩ := settle_eq_ok (atomically_eq_ok.1 hsettle)
        exact .inr (.inr ⟨p, reason, t, o, hfound, hreason, rfl⟩)

/-- Only by a settlement does a visit of the sweep change the engine. -/
theorem sweepVisit_engine :
    (sweepVisit h block k e s).2.1 = e ∨
    ∃ p reason t, ∃ o : Closing h p reason block e (h.checkpoint s).2 t,
      e.book.position k = .ok p ∧ (sweepVisit h block k e s).2.1 = o.after := by
  rcases sweepVisit_cases h block k e s with ⟨fault, t, hvisit, -⟩ | ⟨p, -, -, hvisit⟩ |
    ⟨p, reason, t, o, hfound, -, hvisit⟩
  · rw [hvisit]
    exact .inl rfl
  · rw [hvisit]
    exact .inl rfl
  · rw [hvisit]
    exact .inr ⟨p, reason, t, o, hfound, rfl⟩

theorem sweepVisit_params : (sweepVisit h block k e s).2.1.params = e.params := by
  rcases sweepVisit_engine h block k e s with hsame | ⟨p, reason, t, o, -, hafter⟩
  · rw [hsame]
  · rw [hafter]
    rfl

variable {h block k e s}

/-- A visit that settled its position found a reason to. -/
theorem sweepVisit_eq_settled {settlement : Settlement}
    (hsettled : (sweepVisit h block k e s).1 = .ok (some settlement)) :
    ∃ p reason t, ∃ o : Closing h p reason block e (h.checkpoint s).2 t,
      e.book.position k = .ok p ∧ e.sweepReason h p block s = .ok (some reason) ∧
      settlement = o.settlement := by
  rcases sweepVisit_cases h block k e s with ⟨fault, t, hvisit, -⟩ | ⟨p, -, -, hvisit⟩ |
    ⟨p, reason, t, o, hfound, hreason, hvisit⟩
  · rw [hvisit] at hsettled
    cases hsettled
  · rw [hvisit] at hsettled
    cases hsettled
  · rw [hvisit] at hsettled
    cases hsettled
    exact ⟨p, reason, t, o, hfound, hreason, rfl⟩

/-- A visit that spared its position found none, and left the engine as it was. -/
theorem sweepVisit_eq_spared (hspared : (sweepVisit h block k e s).1 = .ok none) :
    ∃ p, e.book.position k = .ok p ∧ e.sweepReason h p block s = .ok none ∧
      (sweepVisit h block k e s).2.1 = e := by
  rcases sweepVisit_cases h block k e s with ⟨fault, t, hvisit, -⟩ |
    ⟨p, hfound, hreason, hvisit⟩ | ⟨p, reason, t, o, -, -, hvisit⟩
  · rw [hvisit] at hspared
    cases hspared
  · refine ⟨p, hfound, hreason, ?_⟩
    rw [hvisit]
  · rw [hvisit] at hspared
    cases hspared

end Engine

end LeveragedLp

import LeveragedLp.Proofs.Levies

/-!
# Payments of interest

Only a pass pays interest, and it pays for one position at a time. So the payments in the journal of
a run are, call by call, those of its levies (`Engine.journal_payments`): each was made for the
position that the levy names. An opening, a top-up and a settlement make no payment of interest,
and one that was refused does not stand.
-/

set_option autoImplicit false

namespace LeveragedLp

open Engine

/-- Whether a transfer pays interest. -/
def Transfer.isInterest : Transfer → Bool
  | paidInterest _ _ => true
  | _ => false

/-- The payments of interest in a journal. -/
def Journal.payments (j : Journal) : Journal := j.filter fun x => x.moved.isInterest

theorem Journal.payments_append (i j : Journal) :
    Journal.payments (i ++ j) = i.payments ++ j.payments := List.filter_append _ _

/-! ## What the calls of a step pay -/

section

variable {σ : Type} {s t : σ × Journal} {moves : List Transfer}

theorem Wrote.payments_eq (x : Wrote s t moves) (hnone : ∀ m ∈ moves, m.isInterest = false) :
    t.2.payments = s.2.payments := by
  obtain ⟨new, hnew, rfl⟩ := x
  have hempty : Journal.payments new = [] := by
    refine List.filter_eq_nil_iff.2 fun x hx hpays => ?_
    rw [hnone x.moved (List.mem_map_of_mem hx)] at hpays
    cases hpays
  rw [hnew, Journal.payments_append, hempty, List.append_nil]

theorem Wrote.payments_drop (x : Wrote s t moves) (hall : ∀ m ∈ moves, m.isInterest = true) :
    t.2.payments = s.2.payments ++ t.2.drop s.2.length := by
  obtain ⟨new, hnew, rfl⟩ := x
  have hsame : Journal.payments new = new :=
    List.filter_eq_self.2 fun x hx => hall x.moved (List.mem_map_of_mem hx)
  rw [hnew, Journal.payments_append, hsame, List.drop_left]

end

theorem mem_unlessZero {amount : Amount} {moves : List Transfer} {x : Transfer}
    (hx : x ∈ unlessZero amount moves) : x ∈ moves := by
  unfold unlessZero at hx
  split at hx
  · cases hx
  · exact hx

section

variable {σ κ : Type} {h : Host σ κ} {e e' : Engine} {s t : σ × Journal} {block : Block}
variable {k : PositionKey}

theorem Opening.payments_eq {r : OpenRequest} (o : Opening h.journaled r block e s t) :
    t.2.payments = s.2.payments := by
  obtain ⟨principal, -, hwrote⟩ := o.wrote
  refine hwrote.payments_eq fun x hx => ?_
  unfold Opening.moves at hx
  rcases List.mem_append.1 hx with hx | hx
  · rcases List.mem_append.1 hx with hx | hx
    · split at hx
      · rw [List.mem_singleton.1 hx]
        rfl
      · rcases List.mem_pair.1 hx with rfl | rfl
        · rfl
        · rfl
    · rw [List.mem_singleton.1 (mem_unlessZero hx)]
      rfl
  · rw [List.mem_singleton.1 hx]
    rfl

theorem TopUp.payments_eq {coin : Coin} (o : TopUp h.journaled k coin e s t) :
    t.2.payments = s.2.payments := by
  refine o.wrote.payments_eq fun x hx => ?_
  rw [List.mem_singleton.1 hx]
  rfl

theorem Closing.payments_eq {p : Position} {reason : CloseReason}
    (o : Closing h.journaled p reason block e s t) : t.2.payments = s.2.payments := by
  refine o.paid.wrote.payments_eq fun x hx => ?_
  unfold Distribution.moves at hx
  simp only [List.mem_append, or_assoc] at hx
  rcases hx with hx | hx | hx | hx
  · rw [List.mem_singleton.1 (mem_unlessZero hx)]
    rfl
  · rw [List.mem_singleton.1 (mem_unlessZero hx)]
    rfl
  · rcases List.mem_pair.1 (mem_unlessZero hx) with rfl | rfl
    · rfl
    · rfl
  · rw [List.mem_singleton.1 (mem_unlessZero hx)]
    rfl

theorem Host.Rests.payments_eq (x : h.journaled.Rests s t) : t.2.payments = s.2.payments :=
  x.wrote.payments_eq fun _ hx => (List.not_mem_nil hx).elim

/-! ## Passes -/

namespace Engine

/-- A visit of the accrual pays what its levy tells. -/
theorem accrueVisit_payments (h : Host σ κ) (block : Block) (k : PositionKey) (e : Engine)
    (s : σ × Journal) : (accrueVisit h.journaled block k e s).2.2.2.payments =
      s.2.payments ++ (Moment.levy? h block ⟨k, e, s⟩).toList.flatMap Levy.calls := by
  rcases accrueVisit_cases h.journaled block k e s with ⟨t, o, hvisit⟩ | ⟨fault, t, hvisit, hrests⟩
  · have hpaid : t.2.payments = s.2.payments ++ o.levy.calls := by
      refine o.wrote.payments_drop fun x hx => ?_
      rw [List.mem_singleton.1 (mem_unlessZero hx)]
      rfl
    rw [hvisit, o.levy?_eq hvisit, Option.toList_some, List.flatMap_singleton]
    exact hpaid
  · rw [hvisit, levy?_of_error hvisit]
    exact hrests.payments_eq.trans (List.append_nil _).symm

theorem accrueVisits_payments (h : Host σ κ) (block : Block) (ks : List PositionKey) (e : Engine)
    (s : σ × Journal) : (visitEach (accrueVisit h.journaled block) ks e s).2.2.2.payments =
      s.2.payments ++ ((moments (accrueVisit h.journaled block) ks e s).filterMap
        (Moment.levy? h block)).flatMap Levy.calls := by
  induction ks generalizing e s with
  | nil => exact (List.append_nil _).symm
  | cons k ks ih =>
      have hfirst := accrueVisit_payments h block k e s
      have hrest := ih (accrueVisit h.journaled block k e s).2.1
        (accrueVisit h.journaled block k e s).2.2
      rw [levies_cons, List.flatMap_append, ← List.append_assoc, ← hfirst]
      exact hrest

theorem accrueEpoch_payments (h : Host σ κ) (e : Engine) (block : Block) (s : σ) :
    (accrueEpoch h.journaled e block (s, [])).2.2.2.payments =
      (leviesFor h e block s).flatMap Levy.calls := by
  unfold leviesFor
  by_cases hdone : e.book.lastEpoch = some (e.params.epochOf block.height)
  · rw [if_pos hdone, accrueEpoch_idle hdone]
    rfl
  · rw [if_neg hdone]
    unfold accrueEpoch
    rw [if_neg hdone]
    exact accrueVisits_payments h block e.book.positions.keys e (s, [])

/-- The sweep of a block pays no interest. -/
theorem sweepVisits_payments (h : Host σ κ) (block : Block) (ks : List PositionKey) (e : Engine)
    (s : σ × Journal) :
    (visitEach (sweepVisit h.journaled block) ks e s).2.2.2.payments = s.2.payments := by
  refine visitEach_induction (P := fun _ _ _ t => t.2.payments = s.2.payments) ?_ ks [] e s rfl
  intro done k todo e' t hsame
  rcases sweepVisit_cases h.journaled block k e' t with ⟨fault, u, hvisit, hrests⟩ |
    ⟨p, -, -, hvisit⟩ | ⟨p, reason, u, o, -, -, hvisit⟩
  · rw [hvisit]
    exact hrests.payments_eq.trans hsame
  · rw [hvisit]
    exact hsame
  · rw [hvisit]
    exact o.payments_eq.trans hsame

theorem beginBlock_payments (h : Host σ κ) (e : Engine) (block : Block) (s : σ) :
    (beginBlock h.journaled e block (s, [])).2.2.2.payments =
      (levies h e (.beginBlock block) s).flatMap Levy.calls := by
  have hsweep : (beginBlock h.journaled e block (s, [])).2.2.2.payments =
      (accrualStep h.journaled e block (s, [])).2.2.2.payments := sweepVisits_payments _ _ _ _ _
  rw [hsweep]
  unfold levies
  rcases accrualStep_cases h.journaled e block (s, []) with ⟨haccrues, hstep⟩ | ⟨haccrues, hstep⟩
  · rw [haccrues, hstep]
    exact accrueEpoch_payments h e block s
  · rw [haccrues, hstep]
    rfl

end Engine

end

/-! ## Requests and runs -/

theorem Outcome.payments_eq {σ κ : Type} {h : Host σ κ} {op : Operation} {e e' : Engine} {s : σ}
    {t : σ × Journal} {answer : Except Fault Answer}
    (x : Outcome h.journaled e (s, []) op answer e' t) :
    t.2.payments = (Engine.levies h e op s).flatMap Levy.calls := by
  cases x with
  | refused fault fallible rests =>
      have hlevies : Engine.levies h e op s = [] := by
        cases op <;> first | rfl | cases fallible
      rw [hlevies]
      exact rests.payments_eq
  | opened o => exact o.payments_eq
  | toppedUp o => exact o.payments_eq
  | closed found o => exact o.payments_eq
  | forceClosed found judged o => exact o.payments_eq
  | notEligible health => rfl
  | accrued block => exact accrueEpoch_payments h e block s
  | swept block => exact beginBlock_payments h e block s
  | configured updated => rfl
  | administered pools administers fits =>
      cases op <;> first | rfl | cases administers
  | drained => rfl

namespace Engine

/-- The payments of interest that stand are those that the levies tell of, in their order. -/
theorem journal_payments (e : Engine) (qs : List Request) :
    (e.journal qs).payments = (e.levied qs).flatMap Levy.calls := by
  induction qs generalizing e with
  | nil => rfl
  | cons q qs ih =>
      have hfirst : (e.committed q).payments =
          (levies q.host e q.op q.state).flatMap Levy.calls :=
        (perform_outcome q.host.journaled e q.op (q.state, [])).payments_eq
      rw [journal, Journal.payments_append, levied, List.flatMap_append, hfirst, ih]

end Engine

end LeveragedLp

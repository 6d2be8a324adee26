import LeveragedLp.Proofs.LedgerForm
import LeveragedLp.Proofs.Seconds
import LeveragedLp.Proofs.Waterfall

/-!
# Answers and events agree

An opening and a settlement are told of twice: to the caller, by the answer, and to everybody, by an
event. The answer of a settlement is made of its amounts and the event of the closed record, and yet
the two agree (`Response.AgreesWith`): on the number, the interest paid, the amount repaid and the
health, which the event shows in the ledger's form. What the answer calls liabilities is the debt,
and what the event calls so is the field of the record, which under the separate policy leaves out
the interest carried apart; so the answer names just so much more. What was repaid is always within
the liabilities of the answer.

`AnswersAsTold` says this of an operation as a whole: of an opening, of a close, forced or not, and
of all settlements of a sweep, which are told of in their order.
-/

set_option autoImplicit false

namespace LeveragedLp

open EngineM Engine

/-- An answer and what an event shows tell the same of a position. The answer's liabilities are
those of the event and the interest `carried` beside them. -/
structure Response.AgreesWith (r : Response) (shown : PositionSummary) (carried : Nat) : Prop where
  id : shown.id = r.positionId
  interestPaid : shown.interestPaid = r.interestPaid
  repayAmount : shown.repayAmount = r.repayAmount
  health : shown.health = r.health.ledgerText
  liabilities : r.liabilities.units = shown.liabilities.units + carried
  repaid_le : r.repayAmount.units ≤ r.liabilities.units

/-- The interest that is owed beside the liabilities when the position `p` is settled: none where
interest is stacked, else what was unpaid before and what the settlement charges. -/
def Settlement.carried (t : Settlement) (p : Position) : InterestPolicy → Nat
  | .stacked => 0
  | .separate => p.interestUnpaid.units + t.accrual.due.units

section

variable {σ κ : Type} {h : Host σ κ} {e e' : Engine} {op : Operation} {p : Position}
variable {block : Block} {s t : σ}

/-! ## One opening, one settlement -/

theorem Opening.agrees {r : OpenRequest} (o : Opening h r block e s t) :
    o.response.AgreesWith (o.position.summary .zero) 0 where
  id := rfl
  interestPaid := rfl
  repayAmount := rfl
  health := rfl
  liabilities := rfl
  repaid_le := Nat.zero_le _

namespace Closing

variable {reason : CloseReason} (o : Closing h p reason block e s t)

/-- Interest carried apart does not join the liabilities. -/
theorem liabilities_of_separate (hpolicy : e.params.interestPolicy = .separate) :
    o.position.liabilities = p.liabilities := by
  obtain ⟨planned, -, hcharge⟩ := except_bind_eq_ok.1 o.charge_eq
  obtain ⟨charged, hcharged, hcharge⟩ := except_bind_eq_ok.1 hcharge
  cases hcharge
  have hcarry := (Position.accrue_eq_ok hcharged).carry
  rw [hpolicy] at hcarry
  exact (Position.carry_separate_eq_ok hcarry).1

/-- What is owed is what the record says, and the interest carried beside it. -/
theorem debt_eq_carried : o.settlement.debt.units =
    o.position.liabilities.units + o.settlement.carried p e.params.interestPolicy := by
  cases hpolicy : e.params.interestPolicy with
  | stacked =>
      have hdebt : o.settlement.debt.units = o.position.debtUnits e.params.interestPolicy :=
        Position.debt_eq_ok.1 o.paid.debt_eq
      rw [hpolicy] at hdebt
      exact hdebt
  | separate =>
      have hdebt := o.debt_units
      rw [hpolicy] at hdebt
      rw [o.liabilities_of_separate hpolicy, hdebt]
      exact Nat.add_assoc _ _ _

theorem agrees : o.settlement.response.AgreesWith
    (o.settlement.position.summary o.settlement.repaid)
    (o.settlement.carried p e.params.interestPolicy) where
  id := rfl
  interestPaid := rfl
  repayAmount := rfl
  health := rfl
  liabilities := o.debt_eq_carried
  repaid_le := o.inOrder.repaid.trans_le (Nat.min_le_left _ _)

end Closing

/-! ## Operations -/

/-- The events that an operation adds. -/
def Engine.told (h : Host σ κ) (e : Engine) (op : Operation) (s : σ) : List Event :=
  (e.perform h op s).2.1.events.drop e.events.length

/-- The event is that of the close, and tells of the settlement as its answer does. -/
def Settling.ToldAs (policy : InterestPolicy) (x : Settling σ) (event : Event) : Prop :=
  ∃ shown p, event = .ofClose shown x.settlement.reason ∧
    x.engine.book.position x.settlement.position.key = .ok p ∧
    x.settlement.response.AgreesWith shown (x.settlement.carried p policy)

/-- The answer to an operation agrees with the events that it adds. -/
structure AnswersAsTold (h : Host σ κ) (e : Engine) (op : Operation) (s : σ) : Prop where
  /-- Events only leave the list when they are drained. -/
  added : op ≠ .drainEvents → (e.perform h op s).2.1.events = e.events ++ e.told h op s
  opened : ∀ response, (e.perform h op s).1 = .ok (.opened response) →
    ∃ shown, e.told h op s = [.opened shown] ∧ response.AgreesWith shown 0
  /-- The answer has all settlements, and the closes that are told of are theirs. -/
  settled : toldBy Answer.settlements (e.perform h op s).1 =
    (e.settlings h op s).map Settling.settlement
  closed : List.Forall₂ (Settling.ToldAs e.params.interestPolicy) (e.settlings h op s)
    ((e.told h op s).filter Event.isClose)

/-- The closes that an operation tells of are those of the settlements that it answers with. -/
theorem Outcome.tells {answer : Except Fault Answer} (x : Outcome h e s op answer e' t)
    (hdrain : op ≠ .drainEvents) :
    ∃ told, e'.events = e.events ++ told ∧
      told.filter Event.isClose = (toldBy Answer.settlements answer).map Settlement.event := by
  have hnothing : ∃ told, e.events = e.events ++ told ∧ told.filter Event.isClose = [] :=
    ⟨[], (List.append_nil _).symm, rfl⟩
  cases x with
  | refused fault fallible rests => exact hnothing
  | opened o => exact ⟨[.opened _], rfl, rfl⟩
  | toppedUp o => exact ⟨[.collateralAdded _ _], rfl, rfl⟩
  | closed found o => exact ⟨_, o.after_events, o.settlement.events_filter_isClose⟩
  | forceClosed found judged o => exact ⟨_, o.after_events, o.settlement.events_filter_isClose⟩
  | notEligible health => exact hnothing
  | accrued block => exact (accrueEpoch_turns (.accrueEpoch block) e s).tells rfl hdrain
  | swept block =>
      obtain ⟨told, hevents, hclose⟩ := beginBlock_tells h e block s
      exact ⟨told, hevents, hclose.trans (Settlement.closes_eq _)⟩
  | configured updated => exact (updateParams_turns (h := h) (s := s) updated).tells rfl hdrain
  | administered pools administers fits =>
      rw [toldBy, settlements_of_fits (Operation.settles_of_administers administers) fits]
      exact hnothing
  | drained => exact absurd rfl hdrain

/-- An opening tells of itself and of nothing else. -/
theorem Outcome.opened_agrees {response : Response}
    (x : Outcome h e s op (.ok (.opened response)) e' t) :
    ∃ shown, e'.events = e.events ++ [.opened shown] ∧ response.AgreesWith shown 0 := by
  cases x with
  | opened o => exact ⟨_, rfl, o.agrees⟩
  | administered pools administers fits =>
      cases op <;> first | exact Bool.noConfusion fits | exact Bool.noConfusion administers

namespace Engine

/-- All settlements of an operation are made by the parameters that it began with. -/
theorem settlings_params {x : Settling σ} (hx : x ∈ e.settlings h op s) :
    x.engine.params = e.params := by
  cases op with
  | close k block =>
      obtain ⟨settlement, -, rfl⟩ := List.mem_map.1 hx
      rfl
  | forceClose k block =>
      obtain ⟨settlement, -, rfl⟩ := List.mem_map.1 hx
      rfl
  | beginBlock block =>
      obtain ⟨m, hm, hx⟩ := List.mem_filterMap.1 hx
      obtain ⟨settlement, -, rfl⟩ := Option.map_eq_some_iff.1 hx
      exact moments_forall (I := fun e' => e'.params = e.params)
        (fun k e' s' he' => (sweepVisit_params h block k e' s').trans he')
        (accrualStep_params h e block s) m hm
  | _ => cases hx

/-- The settlements are those of the answer. -/
theorem settlings_eq (h : Host σ κ) (e : Engine) (op : Operation) (s : σ) :
    (e.settlings h op s).map Settling.settlement =
      toldBy Answer.settlements (e.perform h op s).1 := by
  cases hsettles : op.settles with
  | false =>
      rw [settlings_of_not_settles h e s hsettles,
        toldBy_perform (fun _ => settlements_of_fits hsettles) h e s]
      rfl
  | true =>
      cases op with
      | close k block => rw [settlings, List.map_map]; exact List.map_id' _
      | forceClose k block => rw [settlings, List.map_map]; exact List.map_id' _
      | beginBlock block => exact settlings_beginBlock h e block s
      | _ => cases hsettles

/-- What is added follows what was there. -/
theorem events_eq_append_told (hdrain : op ≠ .drainEvents) :
    (e.perform h op s).2.1.events = e.events ++ e.told h op s := by
  obtain ⟨told, hevents, -⟩ := (perform_outcome h e op s).tells hdrain
  rw [Engine.told, hevents, List.drop_left]

/-- One close is told of for each settlement in the answer. -/
theorem told_filter_isClose (h : Host σ κ) (e : Engine) (op : Operation) (s : σ) :
    (e.told h op s).filter Event.isClose =
      (toldBy Answer.settlements (e.perform h op s).1).map Settlement.event := by
  by_cases hdrain : op = .drainEvents
  · -- after draining there are no events
    subst hdrain
    show (([] : List Event).drop e.events.length).filter Event.isClose = []
    rw [List.drop_nil]
    rfl
  · obtain ⟨told, hevents, hclose⟩ := (perform_outcome h e op s).tells hdrain
    rw [← hclose, Engine.told, hevents, List.drop_left]

theorem settling_toldAs {x : Settling σ} (hx : x ∈ e.settlings h op s) :
    x.ToldAs e.params.interestPolicy x.settlement.event := by
  obtain ⟨block, p, -, hmade, -⟩ := of_mem_settlings hx
  have hparams := settlings_params hx
  cases hmade with
  | closing found o =>
      rw [← hparams]
      exact ⟨_, p, rfl, o.stored found, o.agrees⟩

/-- **Answer and event tell the same** of an opening, of a close, forced or not, and of every
settlement of a sweep, whatever the engine and its host: number, interest paid, amount repaid and
health agree, the liabilities agree but for the interest that the separate policy carries beside
them, and no more is repaid than the answer names as liabilities. -/
theorem answers_as_told (h : Host σ κ) (e : Engine) (op : Operation) (s : σ) :
    AnswersAsTold h e op s := by
  have hsettled := settlings_eq h e op s
  constructor
  case added => exact events_eq_append_told
  case opened =>
    intro response hanswer
    have houtcome := perform_outcome h e op s
    rw [hanswer] at houtcome
    obtain ⟨shown, hevents, hagrees⟩ := houtcome.opened_agrees
    refine ⟨shown, ?_, hagrees⟩
    rw [Engine.told, hevents, List.drop_left]
  case settled => exact hsettled.symm
  case closed =>
    rw [told_filter_isClose, ← hsettled, List.map_map, List.forall₂_map_right_iff,
      List.forall₂_same]
    exact fun x hx => settling_toldAs hx

end Engine

end

/-- Where unpaid interest is carried apart, Alice has not paid that of a quarter. -/
def Sample.carriedApart : Engine × Chain :=
  world
    [.updateParams { Params.standard with interestPolicy := .separate },
     .createPool 1 (.tenths 50) true,
     .openPosition opening ⟨1, 0⟩,
     .accrueEpoch ⟨2, 7884000⟩]

/-- She closes her position a while later, so that the settlement charges interest too. -/
def Sample.leaving : Operation := .close ⟨alice, 1⟩ ⟨3, 8672400⟩

namespace Engine

/-- Alice's answer names 5100 as liabilities, with the 1000 carried and the 100 charged, of which
4884 are repaid; the event shows the 4000 that she borrowed. -/
theorem carried_interest_is_answered :
    let world := Sample.carriedApart
    AnswersAsTold Chain.host world.1 Sample.leaving world.2 ∧
      (toldBy Answer.settlements (world.1.perform Chain.host Sample.leaving world.2).1).map
        (fun t => (t.response.liabilities.units, t.response.repayAmount.units)) =
          [(5100, 4884)] ∧
      ((world.1.told Chain.host Sample.leaving world.2).filterMap Event.summary?).map
        (fun shown => (shown.liabilities.units, shown.repayAmount.units)) = [(4000, 4884)] :=
  ⟨answers_as_told _ _ _ _, by decide +kernel, by decide +kernel⟩

/-- So the liabilities of answer and event are not always the same. -/
theorem not_all_liabilities_agree :
    ¬ ∀ (σ κ : Type) (h : Host σ κ) (e : Engine) (op : Operation) (s : σ), e.Reachable →
      List.Forall₂
        (fun (t : Settlement) event => ∃ shown, event = .ofClose shown t.reason ∧
          shown.liabilities = t.response.liabilities)
        (toldBy Answer.settlements (e.perform h op s).1)
        ((e.told h op s).filter Event.isClose) := by
  intro hall
  have hunits : (toldBy Answer.settlements (Sample.carriedApart.1.perform Chain.host
      Sample.leaving Sample.carriedApart.2).1).map
        (fun t => (t.position.liabilities.units, t.debt.units)) = [(4000, 5100)] := by
    decide +kernel
  have hagree := hall _ _ Chain.host Sample.carriedApart.1 Sample.leaving Sample.carriedApart.2
    (Sample.world_reachable _)
  rw [told_filter_isClose, List.forall₂_map_right_iff, List.forall₂_same] at hagree
  obtain ⟨t, ht, hunits⟩ := List.mem_map.1 (hunits ▸ List.mem_singleton_self _)
  obtain ⟨hshown, hanswered⟩ := Prod.mk.inj hunits
  obtain ⟨shown, hevent, hsame⟩ := hagree t ht
  -- the event of a settlement shows its position
  have hsummary := congrArg Event.summary? hevent
  rw [Settlement.event, Event.summary?_ofClose, Event.summary?_ofClose] at hsummary
  rw [← Option.some.inj hsummary] at hsame
  have hequal : t.position.liabilities.units = t.debt.units := congrArg Amount.units hsame
  omega

end Engine

end LeveragedLp

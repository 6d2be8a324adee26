import LeveragedLp.Proofs.Accounts
import LeveragedLp.Proofs.Reasons

/-!
# Every second is charged once

The time up to which interest is charged is the only clock of a position. A levy moves it on by the
seconds that it charges, and nothing else moves it, so from the opening on it has counted them all;
a settlement charges the seconds that are left. A visit that fails leaves the clock where it was, so
that what it would have charged is part of what the next levy or the settlement charges; and where
the clock of the chain moves back there is nothing to charge (`Engine.run_seconds`).
-/

set_option autoImplicit false

namespace LeveragedLp

open Engine

/-- The block in which an operation may settle positions. -/
def Operation.settlesIn? : Operation → Option Block
  | close _ block => some block
  | forceClose _ block => some block
  | beginBlock block => some block
  | _ => none

/-- An accrual charges the position `p`, which was charged for so many seconds before, for those
that are left at a time. -/
structure Accrual.ChargesRest (accrual : Accrual) (p : Position) (rate : Decimal) (now : UInt64)
    (charged : Nat) : Prop where
  charged : p.openedAt.toNat + charged = p.accruedUntil.toNat
  computed : accrual.ComputedAt p rate now
  seconds : (p.elapsed now).toNat = max now.toNat p.accruedUntil.toNat - p.accruedUntil.toNat

/-- A settlement charges the rest at the time of its block, and leaves nothing to be charged. -/
structure Settling.ChargesRest {σ κ : Type} (h : Host σ κ) (x : Settling σ) (p : Position)
    (block : Block) (charged : Nat) : Prop where
  found : x.engine.book.position x.settlement.position.key = .ok p
  rest : x.settlement.accrual.ChargesRest p (h.interestRate (h.checkpoint x.host).2) block.time
    charged
  upTo : x.settlement.position.accruedUntil.toNat = max block.time.toNat p.accruedUntil.toNat

/-- The seconds of a run are counted. -/
structure Engine.CountsSeconds (e : Engine) (qs : List Request) : Prop where
  counted : ∀ p ∈ (e.run qs).book.positions.toList, p.openedAt ≤ p.accruedUntil ∧
    p.openedAt.toNat + Levy.total Levy.seconds p.key (e.levied qs) = p.accruedUntil.toNat
  ascending : ∀ pre mid post, qs = pre ++ mid ++ post → ∀ k p p',
    (e.run pre).book.position k = .ok p → (e.run (pre ++ mid)).book.position k = .ok p' →
      p.accruedUntil ≤ p'.accruedUntil
  /-- A levy charges all that the levies of earlier requests left, on the record that they left. -/
  levied : ∀ pre q post, qs = pre ++ q :: post →
    ∀ l ∈ (e.run pre).levies q.host q.op q.state,
      (e.run pre).book.position l.position.key = .ok l.position ∧
      ∃ block, q.op.tick? = some block ∧ l.time = block.time ∧
        l.accrual.ChargesRest l.position l.rate block.time
          (Levy.total Levy.seconds l.position.key (e.levied pre))
  /-- A settlement charges all that the levies left, those of its own block included. -/
  settled : ∀ pre q post, qs = pre ++ q :: post →
    ∀ x ∈ (e.run pre).settlings q.host q.op q.state,
      ∃ block p, q.op.settlesIn? = some block ∧ x.ChargesRest q.host p block
        (Levy.total Levy.seconds p.key (e.levied (pre ++ [q])))

/-! ## Settlements -/

theorem Accrual.ComputedAt.chargesRest {accrual : Accrual} {p : Position} {rate : Decimal}
    {now : UInt64} {charged : Nat} (x : accrual.ComputedAt p rate now)
    (hcharged : p.openedAt.toNat + charged = p.accruedUntil.toNat) :
    accrual.ChargesRest p rate now charged where
  charged := hcharged
  computed := x
  seconds := by
    rw [p.toNat_elapsed]
    omega

section

variable {σ κ : Type} {h : Host σ κ} {e : Engine} {op : Operation} {s : σ} {k : PositionKey}
variable {block : Block} {x : Settling σ} {p : Position}

/-- A settlement was made of the position `p` on the book. -/
inductive Settling.MadeOf (h : Host σ κ) (p : Position) (block : Block) : Settling σ → Prop
  | closing {k : PositionKey} {reason : CloseReason} {e : Engine} {s t : σ}
      (found : e.book.position k = .ok p)
      (o : Closing h p reason block e (h.checkpoint s).2 t) : MadeOf h p block ⟨e, s, o.settlement⟩

theorem Settling.MadeOf.position_eq (hx : MadeOf h p block x) :
    x.engine.book.position p.key = .ok p := by
  cases hx with
  | closing found o => rwa [Book.key_of_position found]

theorem Settling.MadeOf.chargesRest {charged : Nat} (hx : MadeOf h p block x)
    (hcharged : p.openedAt.toNat + charged = p.accruedUntil.toNat) :
    x.ChargesRest h p block charged := by
  cases hx with
  | closing found o =>
      have htime : o.position.accruedUntil.toNat =
          p.accruedUntil.toNat + (p.elapsed block.time).toNat := o.develops.time
      refine ⟨o.stored found, (chargeUp_develops o.charge_eq).1.chargesRest hcharged, ?_⟩
      rw [p.toNat_elapsed] at htime
      show o.position.accruedUntil.toNat = _
      omega

theorem Operation.settles_of_administers (h : op.administersPools = true) :
    op.settles = false := by
  cases op <;> first | rfl | cases h

/-- What an operation answers with, outside of a sweep, was made of a position that was open before
it. -/
theorem Outcome.of_mem_settlements {answer : Except Fault Answer} {e' : Engine} {t : σ}
    {settlement : Settlement} (y : Outcome h e s op answer e' t)
    (hop : ∀ block, op ≠ .beginBlock block)
    (hsettlement : settlement ∈ toldBy Answer.settlements answer) :
    ∃ block p, op.settlesIn? = some block ∧ Settling.MadeOf h p block ⟨e, s, settlement⟩ := by
  cases y with
  | @closed k block p t found o =>
      cases List.mem_singleton.1 hsettlement
      exact ⟨block, p, rfl, .closing found o⟩
  | @forceClosed k block p reason t found judged o =>
      cases List.mem_singleton.1 hsettlement
      exact ⟨block, p, rfl, .closing found o⟩
  | swept block => exact absurd rfl (hop block)
  | @administered op answer pools administers fits =>
      have hnothing : toldBy Answer.settlements (.ok answer) = [] :=
        settlements_of_fits (Operation.settles_of_administers administers) fits
      rw [hnothing] at hsettlement
      cases hsettlement
  | _ => cases hsettlement

namespace Engine

/-- A visit of the sweep leaves the records as they are, but for the one that it takes off. -/
theorem sweepVisit_carries {added : PositionKey → Nat} {ls : List Levy} {e' : Engine}
    (y : e.Carries added ls e') (block : Block) (k : PositionKey) (s : σ) :
    e.Carries added ls (sweepVisit h block k e' s).2.1 := by
  rcases sweepVisit_engine h block k e' s with hsame | ⟨p, reason, u, o, -, hafter⟩
  · rw [hsame]
    exact y
  · rw [hafter]
    exact y.andLeave rfl fun _ _ => o.position_of_after

/-- The settlements of a sweep were made of positions at their moments. -/
theorem sweepVisit_madeOf {m : Moment σ} {settlement : Settlement}
    (hsettled : Visits.settled? (m.visited (sweepVisit h block)).1 = some settlement) :
    ∃ p, Settling.MadeOf h p block ⟨m.engine, m.host, settlement⟩ := by
  obtain ⟨p, reason, t, o, hfound, -, rfl⟩ :=
    sweepVisit_eq_settled (Visits.settled?_eq_some.1 hsettled)
  exact ⟨p, .closing hfound o⟩

/-- The settlements of an operation were made of the positions before it, which its levies carried
on. -/
theorem of_mem_settlings (hx : x ∈ e.settlings h op s) :
    ∃ block p, op.settlesIn? = some block ∧ Settling.MadeOf h p block x ∧
      e.Carries (fun _ => 0) (levies h e op s) x.engine := by
  have hsame : e.Carries (fun _ => 0) [] e := .of_same rfl fun _ _ => id
  cases op with
  | close l closing =>
      obtain ⟨settlement, hsettlement, rfl⟩ := List.mem_map.1 hx
      obtain ⟨block, p, hblock, hmade⟩ := (perform_outcome h e _ s).of_mem_settlements
        (fun _ => Operation.noConfusion) hsettlement
      exact ⟨block, p, hblock, hmade, hsame⟩
  | forceClose l closing =>
      obtain ⟨settlement, hsettlement, rfl⟩ := List.mem_map.1 hx
      obtain ⟨block, p, hblock, hmade⟩ := (perform_outcome h e _ s).of_mem_settlements
        (fun _ => Operation.noConfusion) hsettlement
      exact ⟨block, p, hblock, hmade, hsame⟩
  | beginBlock block =>
      obtain ⟨m, hm, hx⟩ := List.mem_filterMap.1 hx
      obtain ⟨settlement, hsettled, rfl⟩ := Option.map_eq_some_iff.1 hx
      obtain ⟨p, hmade⟩ := sweepVisit_madeOf hsettled
      refine ⟨block, p, rfl, hmade, ?_⟩
      -- the accrual carried the positions on, and the sweep only takes positions off
      exact moments_forall (I := e.Carries (fun _ => 0) (levies h e (.beginBlock block) s))
        (fun k _ s' y => sweepVisit_carries y block k s') (accrualStep_carries h e block s) m hm
  | _ => cases hx

/-! ## Runs -/

variable {params : Params} {qs : List Request}

/-- The levies on a position amount to the time since it was opened. -/
theorem run_counted (hnew : create params = .ok e) (hfew : e.openings qs < twoPow 64 - 1)
    (hfound : (e.run qs).book.position k = .ok p) :
    p.openedAt.toNat + Levy.total Levy.seconds k (e.levied qs) = p.accruedUntil.toNat := by
  obtain ⟨opened, response, hopened, hdevelops⟩ := run_origin hnew qs hfew hfound
  obtain ⟨pre, q, post, -, -, hopens⟩ := hopened
  have hstart : opened.accruedUntil = opened.openedAt := (hopens.accounts .stacked).2
  rw [hdevelops.openedAt_eq, hdevelops.time, hstart]

/-- A position that was open before a run and is open after it was not charged for less. -/
theorem run_accruedUntil_le {n : Nat} {p' : Position} (he : e.book.Sound n)
    (hn : n + e.openings qs < twoPow 64 - 1) (hbefore : e.book.position k = .ok p)
    (hafter : (e.run qs).book.position k = .ok p') : p.accruedUntil ≤ p'.accruedUntil := by
  rcases run_record he qs hn hafter with ⟨-, p₀, hfound, hdevelops⟩ | ⟨hk, -⟩
  · cases hbefore.symm.trans hfound
    exact hdevelops.accruedUntil_le
  · -- the key was in use before, and a number is not given out twice
    have hopen := Book.isSome_of_position hbefore
    rw [he.unknown hk] at hopen
    cases hopen

/-- A settlement finds its position as the levies of its own request left it. -/
theorem settlings_chargeRest {charged : PositionKey → Nat}
    (hcharged : ∀ k p, e.book.position k = .ok p →
      p.openedAt.toNat + charged k = p.accruedUntil.toNat)
    (hx : x ∈ e.settlings h op s) :
    ∃ block p, op.settlesIn? = some block ∧ x.ChargesRest h p block
      (charged p.key + Levy.total Levy.seconds p.key (levies h e op s)) := by
  obtain ⟨block, p, hblock, hmade, hcarries⟩ := of_mem_settlings hx
  obtain ⟨-, before, hfound, hdevelops⟩ := hcarries p.key p hmade.position_eq
  refine ⟨block, p, hblock, hmade.chargesRest ?_⟩
  have hbefore := hcharged p.key before hfound
  rw [hdevelops.openedAt_eq, hdevelops.time]
  omega

/-- **Seconds.** In a run from a new engine, whatever the hosts do and whatever the clocks show,
the levies on a position amount to the seconds from its opening to the time up to which it is
charged, and this time does not move back; and whenever a position is charged or settled, it is
charged for all seconds that are left, so that none is charged twice and none is lost. -/
theorem run_seconds (hnew : create params = .ok e) (qs : List Request)
    (hfew : e.openings qs < twoPow 64 - 1) : e.CountsSeconds qs := by
  -- the bound holds of every part of the run
  have hpart : ∀ pre post, qs = pre ++ post → e.openings pre < twoPow 64 - 1 := by
    rintro pre post rfl
    rw [openings_append] at hfew
    exact Nat.lt_of_le_of_lt (Nat.le_add_right _ _) hfew
  constructor
  case counted =>
    intro p hp
    have hcounted := run_counted hnew hfew (Book.position_eq_ok.2 (Registry.get?_key hp))
    refine ⟨?_, hcounted⟩
    rw [UInt64.le_iff_toNat_le]
    omega
  case ascending =>
    intro pre mid post hqs k p p' hbefore hafter
    have hmid := hpart (pre ++ mid) post hqs
    rw [openings_append] at hmid
    have hpre : 0 + e.openings pre < twoPow 64 - 1 := by omega
    have hsound := run_sound (create_sound hnew) pre hpre
    rw [Nat.zero_add] at hsound
    rw [run_append] at hafter
    exact run_accruedUntil_le hsound hmid hbefore hafter
  case levied =>
    intro pre q post hqs l hl
    obtain ⟨hfound, block, htick, htime, hcomputed⟩ := of_mem_levies hl
    have hcounted := run_counted hnew (hpart pre _ hqs) hfound
    exact ⟨hfound, block, htick, htime, hcomputed.chargesRest hcounted⟩
  case settled =>
    intro pre q post hqs x hx
    have hone : (e.run pre).levied [q] = levies q.host (e.run pre) q.op q.state :=
      List.append_nil _
    rw [levied_append, hone]
    obtain ⟨block, p, hblock, hrest⟩ :=
      settlings_chargeRest (fun k p => run_counted hnew (hpart pre _ hqs)) hx
    refine ⟨block, p, hblock, ?_⟩
    rw [Levy.total_append]
    exact hrest

end Engine

end

/-- The host takes no interest in the first pass, which therefore skips Alice. Before the second
pass the clock moves back; after it she closes her position. -/
def Sample.skipping : List Request :=
  let ops : List Operation :=
    [.createPool 1 (.tenths 50) true,
     .openPosition opening ⟨1, 0⟩,
     .addCollateral ⟨alice, 1⟩ ⟨.usdc, { units := 100 }⟩]
  let before := world ops
  let shut := before.2.fail ⟨.payInterest, .rejected "closed for the day", true⟩
  let after := (before.1.perform Chain.host (.accrueEpoch ⟨2, 788400⟩) shut).2
  inTurn engine Chain.initial ops ++ ⟨Chain.host, shut, .accrueEpoch ⟨2, 788400⟩⟩ ::
    inTurn after.1 (after.2.mend .payInterest)
      [.accrueEpoch ⟨3, 700000⟩, .close ⟨alice, 1⟩ ⟨4, 1576800⟩]

/-- The second pass charges Alice for all seconds since her opening, and the settlement for those
since the second pass. -/
theorem Engine.skipped_seconds_are_charged :
    (Sample.engine.levied Sample.skipping).map Levy.seconds = [700000] ∧
      ((Sample.engine.answers Sample.skipping).flatMap (toldBy Answer.settlements)).map
        (fun t => t.position.accruedUntil) = [1576800] ∧
      Sample.engine.CountsSeconds Sample.skipping :=
  ⟨by decide +kernel, by decide +kernel,
    run_seconds Sample.engine_new _ ((openings_le_length _ _).trans_lt (by decide +kernel))⟩

end LeveragedLp

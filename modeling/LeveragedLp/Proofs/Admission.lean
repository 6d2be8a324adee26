import LeveragedLp.Proofs.Closure
import LeveragedLp.Proofs.Filing
import LeveragedLp.Proofs.Judgement
import LeveragedLp.Proofs.Standstill

/-!
# From admission to judgement

A position is admitted with the health that its block would judge it by: no time has passed, so no
interest is due, and the pool that took its shares is open. Of the two thresholds the one for
admission is not the lower (`Params.thresholds_le`), as valid parameters are the only ones that are
ever in force. So a new position is above the threshold for liquidation, or at it: both thresholds
include the health that is equal to them, and where they are one value and the new position has
just that health, it is safe and liquidated at once (`Params.MeetAt`).
-/

set_option autoImplicit false

namespace LeveragedLp

open EngineM Engine

/-! ## The thresholds -/

/-- Two decimals stand for the same number. -/
def Decimal.SameValue (a b : Decimal) : Prop := a ≤ b ∧ b ≤ a

instance (a b : Decimal) : Decidable (a.SameValue b) := inferInstanceAs (Decidable (_ ∧ _))

/-- Both thresholds are met by one health exactly. -/
def Params.MeetAt (params : Params) (health : Decimal) : Prop :=
  params.liquidationThreshold.SameValue params.safeThreshold ∧
    params.safeThreshold.SameValue health

instance (params : Params) (health : Decimal) : Decidable (params.MeetAt health) :=
  inferInstanceAs (Decidable (_ ∧ _))

namespace Params

variable {params : Params} {health : Decimal}

theorem thresholds_le (hvalid : params.validate = .ok ()) :
    params.liquidationThreshold ≤ params.safeThreshold := by
  unfold validate at hvalid
  obtain ⟨-, hvalid⟩ := refuse_bind_eq_ok.1 hvalid
  obtain ⟨hordered, -⟩ := refuse_bind_eq_ok.1 hvalid
  by_contra hle
  exact hordered (Decimal.not_le.1 hle)

theorem isSafe_iff : params.isSafe health = true ↔ params.safeThreshold ≤ health :=
  decide_eq_true_iff

/-- A safe health is at the threshold for liquidation only if both thresholds are there. -/
theorem isLiquidatable_iff_meetAt (hvalid : params.validate = .ok ())
    (hsafe : params.isSafe health = true) :
    params.isLiquidatable health = true ↔ params.MeetAt health := by
  have hordered := thresholds_le hvalid
  rw [isSafe_iff] at hsafe
  rw [isLiquidatable_iff]
  constructor
  · intro hlow
    have hmeet : params.safeThreshold ≤ params.liquidationThreshold := Decimal.le_trans hsafe hlow
    have hhealth : health ≤ params.safeThreshold := Decimal.le_trans hlow hordered
    exact ⟨⟨hordered, hmeet⟩, hsafe, hhealth⟩
  · rintro ⟨⟨-, hmeet⟩, -, hhealth⟩
    exact Decimal.le_trans hhealth hmeet

end Params

section

variable {σ κ : Type} {h : Host σ κ} {op : Operation} {e e' : Engine} {s t : σ} {m d : Nat}

theorem Turns.params_valid (x : Turns h op e s m d e' t) (he : e.params.validate = .ok ()) :
    e'.params.validate = .ok () := by
  induction x with
  | none => exact he
  | more before last ih => exact last.params_valid ih

/-- The parameters in force are valid, whatever was asked of the engine. -/
theorem Engine.Reachable.params_valid (he : e.Reachable) : e.params.validate = .ok () := by
  induction he with
  | new created => exact (filed_of_create created).params
  | next before q ih => exact (perform_turns q.host _ q.op q.state).params_valid ih

end

/-! ## The new position -/

namespace Opening

variable {σ κ : Type} {h : Host σ κ} {r : OpenRequest} {block : Block} {e : Engine} {s t : σ}
variable (o : Opening h r block e s t)

theorem position_after : o.after.book.position ⟨r.owner, e.book.nextId⟩ = .ok o.position := by
  have hget := Registry.get?_insert_self e.book.positions o.position
  exact Book.position_eq_ok.2 hget

/-- The health that is answered is the one that was found safe. -/
theorem healthOrMax_eq : h.healthOrMax e.params t o.position = .ok o.health ∧
    e.params.isSafe o.health = true := by
  obtain ⟨health, hhealth, hsafe⟩ := except_bind_eq_ok.1 o.appraise_eq
  by_cases hlow : e.params.isSafe health = true
  · rw [if_pos hlow] at hsafe
    cases hsafe
    exact ⟨hhealth, hlow⟩
  · rw [if_neg hlow] at hsafe
    cases hsafe

theorem pool_after : o.after.book.pool r.pool = .ok o.pool := by
  have hget := Registry.get?_insert_self e.book.pools o.pool
  have hid : Keyed.key o.pool = r.pool := o.pool_id
  rw [hid] at hget
  exact Book.pool_eq_ok.2 hget

/-- The pool of the new position is not closed. -/
theorem not_closed_after : (o.after.book.pool? o.position.pool).any Pool.closed = false := by
  have hpool : o.after.book.pool? o.position.pool = some o.pool := Book.pool_eq_ok.1 o.pool_after
  have hclosed : o.pool.closed = o.tracked.closed := by rw [o.pool_eq]
  rw [hpool, Option.any_some, hclosed, o.tracked_open]

/-- In its own block a new position has the health that it was admitted with. -/
theorem dueHealth_after : o.after.dueHealth h o.position block t = .ok o.health := by
  have hnow : block.time ≤ o.position.accruedUntil := UInt64.le_refl block.time
  obtain ⟨accrual, hcharge, -⟩ := chargeUp_still h o.after t hnow
  unfold dueHealth
  rw [hcharge]
  exact o.healthOrMax_eq.1

end Opening

/-! ## Judged in the block of the opening -/

namespace Engine

variable {σ κ : Type} {h : Host σ κ} {k : PositionKey} {block : Block} {e e' : Engine} {s t : σ}

/-- A forced close tells the health of a position that is judged healthy, and of no other. -/
theorem forceClose_eq_notEligible {p : Position} {health : Decimal}
    (hfound : e.book.position k = .ok p) :
    forceClose h k block (e, s) = (.ok (.notEligible health), e, s) ↔
      e.eligibility h p block s = .ok (.healthy health) := by
  constructor
  · intro hforce
    simp only [forceClose, asking_bind_eq_ok] at hforce
    obtain ⟨q, hq, verdict, hjudged, hforce⟩ := hforce
    have hsame : q = p := Except.ok.inj (hq.symm.trans hfound)
    rw [hsame] at hjudged
    cases verdict with
    | healthy found =>
        cases hforce
        exact hjudged
    | close reason =>
        obtain ⟨settlement, u, -, hlast⟩ := HostM.bind_eq_ok.1 hforce
        cases hlast
  · intro hjudged
    simp only [forceClose, asking_bind_eq_ok]
    exact ⟨p, hfound, .healthy health, hjudged, rfl⟩

/-- **What was admitted is not liquidated at once**, but for one case. After an opening, a forced
close of the position in the same block, on the host as the opening left it, finds it not eligible,
with the health that the opening answered, and changes nothing; unless both thresholds and that
health are one value. -/
theorem opened_is_not_eligible {r : OpenRequest} {response : Response} (he : e.Reachable)
    (hopen : openPosition h r block (e, s) = (.ok response, e', t)) :
    forceClose h ⟨r.owner, response.positionId⟩ block (e', t) =
        (.ok (.notEligible response.health), e', t) ↔
      ¬ e.params.MeetAt response.health := by
  obtain ⟨o, rfl, rfl⟩ := openPosition_eq_ok hopen
  have hsafe := o.healthOrMax_eq.2
  have hmeet := Params.isLiquidatable_iff_meetAt he.params_valid hsafe
  have hjudged : o.after.eligibility h o.position block t =
      .ok (if e.params.isLiquidatable o.health then .close .liquidation
        else .healthy o.health) := by
    rw [eligibility_of_not_closed o.not_closed_after, o.dueHealth_after]
    rfl
  show forceClose h ⟨r.owner, e.book.nextId⟩ block (o.after, t) =
    (.ok (.notEligible o.health), o.after, t) ↔ ¬ e.params.MeetAt o.health
  rw [forceClose_eq_notEligible o.position_after, hjudged, ← hmeet]
  by_cases hlow : e.params.isLiquidatable o.health = true
  · simp [hlow]
  · simp [hlow]

/-- Alice opens with a health of 1.221 under the standard thresholds, the higher of which is 1.1. -/
theorem opening_of_alice_is_not_eligible :
    let e := (Sample.world [.createPool 1 (.tenths 50) true]).1
    let s := (Sample.world [.createPool 1 (.tenths 50) true]).2
    let opened := openPosition Chain.host Sample.opening ⟨1, 0⟩ (e, s)
    ∃ response, opened.1 = .ok response ∧ ¬ e.params.MeetAt response.health ∧
      forceClose Chain.host ⟨Sample.alice, response.positionId⟩ ⟨1, 0⟩ (opened.2.1, opened.2.2) =
        (.ok (.notEligible response.health), opened.2.1, opened.2.2) := by
  intro e s opened
  have hhealth : (opened.1.map fun response => decide (e.params.MeetAt response.health)) =
      .ok false := by decide +kernel
  obtain ⟨response, hopen, hhealth⟩ := except_map_eq_ok.1 hhealth
  have hapart := of_decide_eq_false hhealth
  have hreachable : e.Reachable := Sample.world_reachable _
  have hrun := eq_of_fst hopen
  exact ⟨response, hopen, hapart, (opened_is_not_eligible hreachable hrun).2 hapart⟩

/-- Where the thresholds are one value, a position that was opened with just that health is
liquidated in its own block: not every opening is of a position that is not eligible. -/
theorem not_all_opened_are_not_eligible :
    ¬ ∀ (σ κ : Type) (h : Host σ κ) (e e' : Engine) (s t : σ) (r : OpenRequest) (block : Block)
      (response : Response), e.params.validate = .ok () → e.Reachable →
        openPosition h r block (e, s) = (.ok response, e', t) →
          forceClose h ⟨r.owner, response.positionId⟩ block (e', t) =
            (.ok (.notEligible response.health), e', t) := by
  intro hall
  let params : Params :=
    { Params.standard with liquidationThreshold := .tenths 19, safeThreshold := .tenths 19 }
  let strict : Engine := { params, book := .empty, events := [] }
  let q : Request := ⟨Chain.host, Chain.initial, .createPool 1 (.tenths 50) true⟩
  let e := strict.next q
  have hnew : create params = .ok strict := by decide +kernel
  have hreachable : e.Reachable := Reachable.next (.new hnew) q
  let r : OpenRequest :=
    { Sample.opening with collateral := ⟨Chain.usdt, { units := 10 }⟩, leverage := .tenths 20 }
  let opened := openPosition Chain.host r ⟨1, 0⟩ (e, Chain.initial)
  have hforced : (opened.1.map fun response =>
      decide ((forceClose Chain.host ⟨r.owner, response.positionId⟩ ⟨1, 0⟩
          (opened.2.1, opened.2.2)).1 = .ok (.notEligible response.health))) = .ok false := by
    decide +kernel
  obtain ⟨response, hopen, hforced⟩ := except_map_eq_ok.1 hforced
  have hrun := eq_of_fst hopen
  have hanswer := hall _ _ Chain.host e opened.2.1 Chain.initial opened.2.2 r ⟨1, 0⟩ response
    hreachable.params_valid hreachable hrun
  exact of_decide_eq_false hforced (congrArg Prod.fst hanswer)

end Engine

end LeveragedLp

import LeveragedLp.Proofs.Exposure

/-!
# The faults of a settlement

A settlement can fail for many reasons: the host may refuse a call, an amount may not fit, shares
may have no value. What it cannot fail for, on a book that a run can reach, is the bookkeeping of
the engine itself: the pool of a position is tracked, and it has the shares that the position
takes off (`Fault.isMisbooking` names the faults that would say otherwise).
-/

set_option autoImplicit false

namespace LeveragedLp

open EngineM Engine

/-- Whether a fault says that the engine lost track of a pool or of its exposure. -/
def Fault.isMisbooking : Fault → Bool
  | .invariantViolation (.release _ _ _) => true
  | .poolUnavailable _ .untracked => true
  | _ => false

/-! ## Results that are no misbooking -/

/-- If there is a fault, it is no misbooking. -/
def Booked {α : Type} (x : Except Fault α) : Prop :=
  ∀ fault, x = .error fault → fault.isMisbooking = false

namespace Booked

variable {α β : Type}

theorem ok (a : α) : Booked (.ok a) := by
  intro fault h
  cases h

theorem error {fault : Fault} (h : fault.isMisbooking = false) :
    Booked (.error fault : Except Fault α) := by
  intro cause hcause
  cases hcause
  exact h

theorem bind {x : Except Fault α} {f : α → Except Fault β} (hx : Booked x)
    (hf : ∀ a, Booked (f a)) : Booked (x >>= f) := by
  cases x with
  | error fault => exact .error (hx fault rfl)
  | ok a => exact hf a

theorem orFault {fault : Fault} (h : fault.isMisbooking = false) (o : Option α) :
    Booked (orFault fault o) := by
  cases o with
  | none => exact .error h
  | some a => exact .ok a

theorem mapError {ε : Type} {f : ε → Fault} (h : ∀ cause, (f cause).isMisbooking = false)
    (x : Except ε α) : Booked (x.mapError f) := by
  cases x with
  | error cause => exact .error (h cause)
  | ok a => exact .ok a

theorem foldlM {f : β → α → Except Fault β} (hf : ∀ b a, Booked (f b a)) (as : List α) (b : β) :
    Booked (as.foldlM f b) := by
  induction as generalizing b with
  | nil => exact .ok b
  | cons a as ih =>
      rw [List.foldlM_cons]
      exact .bind (hf b a) ih

end Booked

/-! ## Arithmetic and valuation -/

section

variable {σ κ : Type} (h : Host σ κ) (params : Params) (s : σ)

namespace Amount

theorem add_booked (a b : Amount) (quantity : String) : Booked (a.add b quantity) := .orFault rfl _

theorem sub_booked (a b : Amount) (quantity : String) : Booked (a.sub b quantity) := .orFault rfl _

theorem times_booked (a : Amount) (factor : Decimal) : Booked (a.times factor) := by
  refine .bind (.orFault rfl _) fun d => .bind (.orFault rfl _) fun product => ?_
  unfold ofDecimal
  split
  · exact .error rfl
  · exact .ok _

theorem ratio_booked (a b : Amount) : Booked (a.ratio b) := by
  intro fault hratio
  obtain ⟨quantity, rfl⟩ := ratio_eq_error hratio
  rfl

end Amount

theorem valueOf_booked (amount : Amount) (source target : Denom) :
    Booked (h.valueOf s amount source target) := by
  intro fault hvalue
  obtain ⟨gap, rfl⟩ := Host.valueOf_eq_error hvalue
  rfl

theorem debt_booked (p : Position) (policy : InterestPolicy) : Booked (p.debt policy) := by
  cases policy with
  | stacked => exact .ok _
  | separate => exact Amount.add_booked _ _ _

theorem custodyValue_booked (p : Position) : Booked (h.custodyValue params s p) :=
  .foldlM (fun _ _ => .bind (valueOf_booked h s _ _ _) fun _ => Amount.add_booked _ _ _) _ _

/-- A debt without a value is a fault of the valuation, and a debt of nothing is no fault here. -/
theorem healthOrMax_booked (p : Position) : Booked (h.healthOrMax params s p) := by
  have hhealth : Booked (h.health params s p) := by
    unfold Host.health
    -- the debt is valued first, and the custody only where there is a debt
    refine .bind (.bind (debt_booked p _) fun _ => valueOf_booked h s _ _ _) fun debt => ?_
    split
    · exact .error rfl
    · exact .bind (custodyValue_booked h params s p) fun _ => Amount.ratio_booked _ _
  unfold Host.healthOrMax
  split
  · exact .ok _
  · exact hhealth

/-! ## Interest -/

theorem planAccrual_booked (p : Position) (policy : InterestPolicy) (rate : Decimal)
    (now : UInt64) : Booked (p.planAccrual policy rate now) := by
  have hdue : Booked (interestDue p.liabilities rate (p.elapsed now)) := by
    unfold interestDue
    split
    · exact .ok _
    · exact .bind (.orFault rfl _) fun _ => Amount.times_booked _ _
  have howed : ∀ due, Booked (p.owed due policy) := by
    intro due
    cases policy with
    | stacked => exact .ok _
    | separate => exact Amount.add_booked _ _ _
  exact .bind hdue fun due => .bind (howed due) fun _ => .bind (Amount.sub_booked _ _ _) fun _ =>
    .ok _

theorem accrue_booked (p : Position) (accrual : Accrual) (policy : InterestPolicy) :
    Booked (p.accrue accrual policy) := by
  refine .bind (Amount.sub_booked _ _ _) fun _ => .bind (Amount.add_booked _ _ _) fun _ =>
    .bind (Amount.add_booked _ _ _) fun _ => .bind ?_ fun _ => .ok _
  cases policy with
  | stacked =>
      exact .bind (Amount.add_booked _ _ _) fun _ => .bind (Amount.add_booked _ _ _) fun _ => .ok _
  | separate => exact .ok _

theorem chargeUp_booked (e : Engine) (p : Position) (now : UInt64) :
    Booked (e.chargeUp h p now s) := by
  have hplan := planAccrual_booked p e.params.interestPolicy (h.interestRate s) now
  exact .bind (.bind hplan fun _ => .ok _) fun _ => .bind (accrue_booked _ _ _) fun _ => .ok _

theorem eligibility_booked (e : Engine) (p : Position) (block : Block) :
    Booked (e.eligibility h p block s) := by
  unfold eligibility
  split
  · exact .ok _
  · refine .bind (chargeUp_booked h s e p _) fun ⟨_, charged⟩ => ?_
    refine .bind (healthOrMax_booked h e.params s charged) fun health => ?_
    split
    · exact .ok _
    · exact .ok _

theorem sweepReason_booked (e : Engine) (p : Position) (block : Block) :
    Booked (e.sweepReason h p block s) := by
  refine .bind (eligibility_booked h s e p block) fun eligible => ?_
  cases eligible with
  | close reason => exact .ok _
  | healthy health =>
      refine .bind ?_ fun _ => .ok _
      unfold reachesTakeProfit
      split
      · exact .ok _
      · exact .bind (.mapError (fun _ => rfl) _) fun _ => .ok _

end

/-! ## Moving funds -/

/-- Wherever it starts, the computation ends in no misbooking. -/
def HostM.AllBooked {σ α : Type} (x : HostM σ α) : Prop := ∀ s, Booked (x s).1

namespace HostM

variable {σ α β : Type}

/-- The results of a row are those of its parts. -/
theorem booked_bind {x : HostM σ α} {f : α → HostM σ β} {s : σ} (hx : Booked (x s).1)
    (hf : ∀ a t, x s = (.ok a, t) → Booked (f a t).1) : Booked ((x >>= f) s).1 := by
  rw [bind_apply]
  rcases hres : x s with ⟨fault | a, t⟩
  · rw [hres] at hx
    exact .error (hx fault rfl)
  · exact hf a t hres

namespace AllBooked

theorem pure (a : α) : (Pure.pure a : HostM σ α).AllBooked := fun _ => .ok a

theorem reading {f : σ → Except Fault α} (hf : ∀ s, Booked (f s)) :
    (HostM.reading f).AllBooked := hf

theorem ofExcept {x : Except Fault α} (hx : Booked x) : (HostM.ofExcept x : HostM σ α).AllBooked :=
  fun _ => hx

/-- A host that refuses a movement knows nothing of the engine's books. -/
theorem moving (movement : Movement) (call : σ → Except HostFault α × σ) :
    (HostM.moving movement call).AllBooked := by
  intro s
  unfold HostM.moving
  rcases call s with ⟨fault | a, t⟩
  · -- the fault is passed on under the name of the movement, or as missing funds
    refine .error ?_
    cases fault with
    | insufficientFunds held needed => rfl
    | _ => rfl
  · exact .ok a

theorem bind {x : HostM σ α} {f : α → HostM σ β} (hx : x.AllBooked) (hf : ∀ a, (f a).AllBooked) :
    (x >>= f).AllBooked := fun s => booked_bind (hx s) fun a t _ => hf a t

end AllBooked

end HostM

section

variable {σ κ : Type} (h : Host σ κ) (p : Position)

theorem redeem_booked : (p.redeem h).AllBooked := by
  unfold Position.redeem
  split
  · exact .pure _
  · exact .bind (.reading fun _ => .orFault rfl _) fun _ => .moving _ _

theorem repay_booked (amount : Amount) : (Position.repay h amount).AllBooked := by
  unfold Position.repay
  split
  · exact .pure _
  · exact .moving _ _

theorem forgive_booked (amount : Amount) : (p.forgive h amount).AllBooked := by
  unfold Position.forgive
  split
  · exact .pure _
  · exact .bind (.moving _ _) fun _ => .moving _ _

theorem payOut_booked (amount : Amount) : (p.payOut h amount).AllBooked := by
  unfold Position.payOut
  split
  · exact .pure _
  · exact .moving _ _

theorem onHost_booked {α : Type} {x : HostM σ α} (hx : x.AllBooked) :
    (EngineM.onHost x).AllBooked := fun st => hx st.2

/-- What is undone after a failure does not change the failure. -/
theorem atomically_booked {α : Type} {x : EngineM σ α} {e : Engine} {s : σ}
    (hx : Booked (x (e, (h.checkpoint s).2)).1) : Booked (EngineM.atomically h x (e, s)).1 := by
  rw [atomically_apply]
  revert hx
  rcases x (e, (h.checkpoint s).2) with ⟨fault | a, st⟩
  · exact fun hx => .error (hx fault rfl)
  · exact fun _ => .ok a

theorem distribute_booked (reason : CloseReason) (accrual : Accrual) :
    (distribute h p reason accrual).AllBooked := by
  refine .bind (fun st => debt_booked p _) fun debt => .bind (onHost_booked (redeem_booked h p))
    fun proceeds => .bind (.ofExcept (Amount.add_booked _ _ _)) fun funds => ?_
  refine .bind (onHost_booked (repay_booked h _)) fun _ =>
    .bind (.ofExcept (Amount.sub_booked _ _ _)) fun shortfall =>
      .bind (onHost_booked (forgive_booked h p _)) fun _ => ?_
  exact .bind (fun _ => .ok _) fun _ => .bind (.ofExcept (Amount.sub_booked _ _ _)) fun payout =>
    .bind (onHost_booked (payOut_booked h p _)) fun _ => .pure _

end

/-! ## Settling on a sound book -/

section

variable {σ κ : Type} {h : Host σ κ} {e : Engine} {n : Nat} {k : PositionKey} {p : Position}
variable {s : σ} {block : Block}

/-- On a sound book the pool of a position is tracked and can release the position's shares. -/
theorem Book.Sound.release_eq_ok {b : Book} (hb : b.Sound n) (hfound : b.position k = .ok p) :
    ∃ tracked released, b.pool p.pool = .ok tracked ∧
      tracked.release p.custody.amount = .ok released := by
  have hp := Registry.mem_toList_of_get? (Book.position_eq_ok.1 hfound)
  obtain ⟨tracked, htracked⟩ := Option.isSome_iff_exists.1 (hb.tracked p hp)
  have hleveraged := hb.leveraged_eq htracked
  rw [Book.exposure_remove hfound, Position.sharesIn, if_pos rfl] at hleveraged
  -- what is left over is below the old exposure, so there is an amount of it
  have hlt : (b.remove k).exposure p.pool < twoPow 128 := by
    have hbound := tracked.leveraged.units_lt
    omega
  have hsub : tracked.leveraged.sub? p.custody.amount = some ⟨_, hlt⟩ := by
    rw [Amount.sub?_eq_some_iff, hleveraged]
    exact Nat.add_comm _ _
  refine ⟨tracked, { tracked with leveraged := ⟨_, hlt⟩ }, Book.pool_eq_ok.2 htracked, ?_⟩
  unfold Pool.release
  rw [hsub]
  rfl

theorem refresh_booked (pool : Pool) (total : Amount) : Booked (pool.refresh total) := by
  refine .bind ?_ fun _ => .ok _
  unfold Pool.freePart
  split
  · exact .ok _
  · exact .bind (.orFault rfl _) fun _ => Amount.ratio_booked _ _

theorem asking_booked {α β : Type} {f : Engine → σ → Except Fault α} {g : α → EngineM σ β}
    (hf : Booked (f e s)) (hg : ∀ a, f e s = .ok a → Booked (g a (e, s)).1) :
    Booked ((EngineM.asking f >>= g) (e, s)).1 := by
  refine HostM.booked_bind hf fun a st hask => ?_
  obtain ⟨ha, rfl⟩ := Prod.mk.inj hask
  exact hg a ha

theorem unexpose_booked {q : Position} {total : Amount} {tracked released : Pool}
    (htracked : e.book.pool q.pool = .ok tracked)
    (hrelease : tracked.release q.custody.amount = .ok released) :
    Booked ((unexpose q total : EngineM σ Unit) (e, s)).1 := by
  refine asking_booked ?_ fun pool hpool => ?_
  · rw [htracked]
    exact .ok _
  · rw [htracked] at hpool
    cases hpool
    refine HostM.booked_bind ?_ fun _ st _ => ?_
    · rw [HostM.ofExcept_apply, hrelease]
      exact .ok _
    · refine HostM.booked_bind (.ok _) fun _ st _ => ?_
      exact HostM.booked_bind (refresh_booked _ total) fun _ st _ => .ok _

theorem closingHealth_booked (h : Host σ κ) (e : Engine) (p : Position) (reason : CloseReason)
    (s : σ) : Booked (e.closingHealth h p reason s) := by
  have hhealth := healthOrMax_booked h e.params s p
  unfold closingHealth
  split
  · exact .ok _
  · exact .ok _
  · next fault hfault _ => exact .error (hhealth fault hfault)

/-- A settlement of an open position never fails for the bookkeeping: until the shares are taken
off, it leaves the book alone. -/
theorem settle_booked (he : e.book.Sound n) (hfound : e.book.position k = .ok p)
    (reason : CloseReason) (block : Block) (s : σ) : Booked (settle h p reason block (e, s)).1 := by
  refine asking_booked (chargeUp_booked h s e p _) fun ⟨accrual, charged⟩ hcharge => ?_
  have hcharged := (chargeUp_eq_ok hcharge).1
  refine asking_booked (closingHealth_booked h e charged reason s) fun health _ => ?_
  have hdistribute := distribute_booked h { charged with health } reason accrual (e, s)
  refine HostM.booked_bind hdistribute fun settlement st hpaid => ?_
  -- paying the funds out adds events at most, so the pool is the one on the sound book
  obtain ⟨e', t⟩ := st
  obtain ⟨d, -, rfl⟩ := distribute_eq_ok hpaid
  refine asking_booked (.mapError (fun _ => rfl) _) fun total _ => ?_
  obtain ⟨tracked, released, htracked, hrelease⟩ := he.release_eq_ok hfound
  rw [← hcharged.pool] at htracked
  rw [← hcharged.custody] at hrelease
  refine HostM.booked_bind (unexpose_booked htracked hrelease) fun _ st _ => ?_
  exact .ok _

/-- The same of the settlements in the sweep of a block. -/
theorem sweepPosition_booked (he : e.book.Sound n) (k : PositionKey) (block : Block) (s : σ) :
    Booked (sweepPosition h k block (e, s)).1 := by
  refine asking_booked (.orFault rfl _) fun p hfound => ?_
  refine asking_booked (sweepReason_booked h s e p block) fun reason _ => ?_
  cases reason with
  | none => exact .ok _
  | some reason =>
      refine HostM.booked_bind ?_ fun settlement st _ => .ok _
      exact atomically_booked h (settle_booked he hfound reason block _)

theorem beginBlock_booked (he : e.book.Sound n) (hn : n < twoPow 64 - 1) (block : Block) (s : σ) :
    ∀ visit ∈ (beginBlock h e block s).1.visits, Booked visit.2 := by
  -- every visit of the sweep finds a sound book, since none of them opens a position
  have hvisit : ∀ k (e : Engine) s, e.book.Sound n →
      Booked (sweepVisit h block k e s).1 ∧ (sweepVisit h block k e s).2.1.book.Sound n := by
    intro k e s he
    have hasked : (Operation.beginBlock block).settles = true := rfl
    have hkept := (sweepVisit_turns (h := h) hasked block k e s).sound he hn
    exact ⟨sweepPosition_booked he k block s, hkept⟩
  have haccrued : (accrueEpoch h e block s).2.1.book.Sound n :=
    (accrueEpoch_turns .drainEvents e s).sound he hn
  unfold beginBlock
  by_cases hboundary : e.params.isEpochBoundary block.height
  · rw [if_pos hboundary]
    exact visitEach_forall hvisit _ haccrued _
  · rw [if_neg hboundary]
    exact visitEach_forall hvisit _ he _

end

/-! ## In every run -/

namespace Engine

/-- The records of pools and positions agree on the exposure, and so no settlement, asked for or
in the sweep of a block, finds a pool missing or short of shares. -/
structure ExposureAgrees (e : Engine) : Prop where
  leveraged : ∀ pool ∈ e.book.pools.toList,
    pool.leveraged.units = ((e.book.positionsIn pool.id).map fun p => p.custody.amount.units).sum
  health : ∀ pool ∈ e.book.pools.toList, Decimal.zero ≤ pool.health ∧ pool.health ≤ Decimal.one
  tracked : ∀ p ∈ e.book.positions.toList, ∃ pool, e.book.pool p.pool = .ok pool
  release : ∀ p ∈ e.book.positions.toList, ∀ pool, e.book.pool p.pool = .ok pool →
    ∃ released, pool.release p.custody.amount = .ok released
  settle : ∀ {σ κ : Type} (h : Host σ κ), ∀ p ∈ e.book.positions.toList, ∀ reason block s,
    Booked (settle h p reason block (e, s)).1
  sweep : ∀ {σ κ : Type} (h : Host σ κ) (block : Block) (s : σ),
    ∀ visit ∈ (beginBlock h e block s).1.visits, Booked visit.2

theorem exposureAgrees_of_sound {e : Engine} {n : Nat} (he : e.book.Sound n)
    (hn : n < twoPow 64 - 1) : e.ExposureAgrees where
  leveraged := he.exposure
  health := he.health
  tracked := fun p hp => by
    obtain ⟨pool, hpool⟩ := Option.isSome_iff_exists.1 (he.tracked p hp)
    exact ⟨pool, Book.pool_eq_ok.2 hpool⟩
  release := fun p hp pool hpool => by
    have hfound : e.book.position p.key = .ok p := Book.position_eq_ok.2 (Registry.get?_key hp)
    obtain ⟨tracked, released, htracked, hreleased⟩ := he.release_eq_ok hfound
    rw [hpool] at htracked
    cases htracked
    exact ⟨released, hreleased⟩
  settle := fun _ p hp => settle_booked he (Book.position_eq_ok.2 (Registry.get?_key hp))
  sweep := fun _ => beginBlock_booked he hn

/-- **Exposure.** After any run from a new engine, with any hosts, successes and failures alike,
the exposure of every pool is the sum of the shares of the positions in it, as long as fewer than
`2 ^ 64 - 1` positions were opened. -/
theorem run_exposureAgrees {params : Params} {e : Engine} (hnew : create params = .ok e)
    (qs : List Request) (hfew : e.openings qs < twoPow 64 - 1) : (e.run qs).ExposureAgrees := by
  have hempty : e.book.Sound 0 := by
    rw [create_eq_ok hnew]
    exact .empty
  rw [← Nat.zero_add (e.openings qs)] at hfew
  exact exposureAgrees_of_sound (run_sound hempty qs hfew) hfew

/-- Two positions were opened in the pool and one of them was closed again. -/
theorem lifetime_exposureAgrees :
    Sample.engine.openings Sample.lifetime = 2 ∧
      (Sample.engine.run Sample.lifetime).book.positions.size = 1 ∧
      (Sample.engine.run Sample.lifetime).ExposureAgrees := by
  have hrun : Sample.engine.openings Sample.lifetime = 2 ∧
      (Sample.engine.run Sample.lifetime).book.positions.size = 1 := by decide +kernel
  refine ⟨hrun.1, hrun.2, run_exposureAgrees Sample.engine_new _ ?_⟩
  rw [hrun.1]
  decide

end Engine

end LeveragedLp

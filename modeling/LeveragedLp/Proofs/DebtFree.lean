import LeveragedLp.Proofs.Admission
import LeveragedLp.Proofs.Levies

/-!
# Positions without debt

Where nothing is owed no interest is due, at any rate and for any time, so a position without debt
is judged and charged by its own record (`Engine.dueHealth_of_debtFree`,
`Engine.accrueVisit_of_debtFree`). Its health is the largest that there is, if a debt of nothing is
worth nothing in the base currency. In the borrow asset it is; but in any other asset the debt is
valued before it is compared with zero, and a host that gives no estimate for nothing leaves the
position without a health (`Engine.debt_free_is_healthy`).
-/

set_option autoImplicit false

namespace LeveragedLp

open EngineM Engine

/-! ## No debt, no interest -/

namespace Position

variable {p : Position} {policy : InterestPolicy} {rate : Decimal} {now : UInt64}

/-- Nothing is owed under a policy. -/
def DebtFree (p : Position) (policy : InterestPolicy) : Prop := p.debt policy = .ok .zero

instance (p : Position) (policy : InterestPolicy) : Decidable (p.DebtFree policy) :=
  inferInstanceAs (Decidable (_ = _))

/-- The accrual of a position that owes nothing. -/
def chargeless (p : Position) (now : UInt64) : Accrual :=
  { p.still .zero with upTo := if now ≤ p.accruedUntil then p.accruedUntil else now }

/-- The position after it. -/
def chargedTo (p : Position) (now : UInt64) : Position :=
  { p with accruedUntil := (p.chargeless now).upTo }

namespace DebtFree

theorem liabilities_eq (x : p.DebtFree policy) : p.liabilities = .zero := by
  have hdebt := debt_eq_ok.1 x
  apply Amount.ext
  cases policy with
  | stacked => exact hdebt.symm
  | separate =>
      have hsum : 0 = p.liabilities.units + p.interestUnpaid.units := hdebt
      show p.liabilities.units = 0
      omega

/-- What is carried apart is owed too. -/
theorem interestUnpaid_eq (x : p.DebtFree .separate) : p.interestUnpaid = .zero := by
  have hsum : 0 = p.liabilities.units + p.interestUnpaid.units := debt_eq_ok.1 x
  apply Amount.ext
  show p.interestUnpaid.units = 0
  omega

theorem owed_eq (x : p.DebtFree policy) : p.owed .zero policy = .ok .zero := by
  cases policy with
  | stacked => rfl
  | separate =>
      show Amount.zero.add p.interestUnpaid "owed interest" = .ok .zero
      rw [x.interestUnpaid_eq]
      rfl

theorem planAccrual_eq (x : p.DebtFree policy) :
    p.planAccrual policy rate now = .ok (p.chargeless now) := by
  have hdue : interestDue p.liabilities rate (p.elapsed now) = .ok .zero := by
    rw [x.liabilities_eq]
    exact if_pos (.inl rfl)
  exact planAccrual_idle hdue x.owed_eq (if_pos (Nat.zero_le _))

theorem planSettlement_eq (x : p.DebtFree policy) :
    p.planSettlement policy rate now = .ok (p.chargeless now) := by
  unfold Position.planSettlement
  rw [x.planAccrual_eq]
  rfl

theorem accrue_eq (x : p.DebtFree policy) :
    p.accrue (p.chargeless now) policy = .ok (p.chargedTo now) :=
  accrue_stillTo x.owed_eq _

end DebtFree

end Position

/-! ## The worth of nothing -/

namespace Host

variable {σ κ : Type} {h : Host σ κ} {params : Params} {s : σ} {p : Position}

/-- Nothing of an asset is worth nothing in another. -/
def NothingIsNothing (h : Host σ κ) (s : σ) (asset base : Denom) : Prop :=
  h.valueOf s .zero asset base = .ok .zero

/-- It is in the asset itself, and elsewhere if the host estimates so. -/
theorem nothingIsNothing_iff {asset base : Denom} : h.NothingIsNothing s asset base ↔
    asset = base ∨
      ∃ route, h.route s asset base = some route ∧
        h.estimateIn s ⟨asset, .zero⟩ route = .ok .zero := by
  unfold NothingIsNothing
  by_cases hsame : asset = base
  · simp [hsame, valueOf]
  · rw [valueOf_eq_ok hsame]
    simp [hsame]

theorem debtValue_of_debtFree (hfree : p.DebtFree params.interestPolicy) :
    h.debtValue params s p = h.valueOf s .zero p.borrowAsset params.baseCurrency := by
  unfold debtValue
  rw [hfree]
  rfl

/-- A debt that is worth nothing makes a position as healthy as can be. -/
theorem healthOrMax_of_nothing (hfree : p.DebtFree params.interestPolicy)
    (hnothing : h.NothingIsNothing s p.borrowAsset params.baseCurrency) :
    h.healthOrMax params s p = .ok .largest := by
  have hdegenerate : h.health params s p = .error .degenerateHealth := by
    unfold health
    rw [debtValue_of_debtFree hfree, hnothing]
    rfl
  unfold healthOrMax
  rw [hdegenerate]

/-- A fault that is not that of a debt worth nothing is the answer. -/
theorem healthOrMax_of_health_error {fault : Fault} (hhealth : h.health params s p = .error fault)
    (hfault : fault ≠ .degenerateHealth) : h.healthOrMax params s p = .error fault := by
  unfold healthOrMax
  rw [hhealth]
  split
  · next hdegenerate =>
    cases hdegenerate
    exact absurd rfl hfault
  · rfl

/-- Without a value of its debt a position has no health, even if nothing is owed. -/
theorem healthOrMax_of_error {fault : Fault} (hfree : p.DebtFree params.interestPolicy)
    (hvalue : h.valueOf s .zero p.borrowAsset params.baseCurrency = .error fault) :
    h.healthOrMax params s p = .error fault := by
  have hhealth : h.health params s p = .error fault := by
    unfold health
    rw [debtValue_of_debtFree hfree, hvalue]
    rfl
  obtain ⟨gap, rfl⟩ := valueOf_eq_error hvalue
  apply healthOrMax_of_health_error hhealth
  intro hfault
  cases hfault

end Host

/-! ## What the engine makes of it -/

namespace Engine

variable {σ κ : Type} {h : Host σ κ} {e : Engine} {p : Position} {k : PositionKey} {block : Block}
variable {s : σ} {fault : Fault}

/-- A position without debt is judged by its own record, whatever time has passed. -/
theorem dueHealth_of_debtFree (hfree : p.DebtFree e.params.interestPolicy) :
    e.dueHealth h p block s = h.healthOrMax e.params s p := by
  unfold dueHealth chargeUp
  rw [hfree.planSettlement_eq]
  show (p.accrue (p.chargeless block.time) _ >>= _) >>= _ = _
  rw [hfree.accrue_eq]
  rfl

/-- An epoch's accrual of it fails only if it has no health. -/
theorem accrueVisit_of_debtFree (hfound : e.book.position k = .ok p)
    (hfree : p.DebtFree e.params.interestPolicy) :
    (accrueVisit h block k e s).1 =
      (h.healthOrMax e.params s p).map fun _ => p.chargeless block.time := by
  have hidle : (p.chargeless block.time).Idle := ⟨rfl, rfl, rfl⟩
  unfold accrueVisit
  rw [accruePosition_of_idle hfound hfree.planAccrual_eq hidle hfree.accrue_eq]
  -- the health does not depend on the time that interest is charged to
  show _ = (h.healthOrMax e.params s (p.chargedTo block.time)).map _
  cases h.healthOrMax e.params s (p.chargedTo block.time) with
  | error _ => rfl
  | ok health => rfl

/-- A forced close of a position that cannot be judged fails, and changes nothing. -/
theorem forceClose_of_error (hfound : e.book.position k = .ok p)
    (hjudged : e.eligibility h p block s = .error fault) :
    forceClose h k block (e, s) = (.error fault, e, s) := by
  simp only [forceClose, HostM.bind_apply, asking_apply, hfound, hjudged]

theorem eligibility_of_debtFree (hfree : p.DebtFree e.params.interestPolicy)
    (hpool : ¬ e.InClosedPool p) :
    e.eligibility h p block s = (h.healthOrMax e.params s p).map fun health =>
      if e.params.isLiquidatable health then .close .liquidation else .healthy health := by
  rw [eligibility_of_not_closed (not_inClosedPool_iff.1 hpool), dueHealth_of_debtFree hfree]

/-- Where nothing is worth nothing whatever the host's state, no pass skips a position without
debt. -/
theorem not_skipped_of_debtFree (hfound : e.book.position k = .ok p)
    (hfree : p.DebtFree e.params.interestPolicy)
    (hnothing : ∀ t, h.NothingIsNothing t p.borrowAsset e.params.baseCurrency) :
    k ∉ (accrueEpoch h e block s).1.skipped := by
  intro hskipped
  by_cases hdone : e.book.lastEpoch = some (e.params.epochOf block.height)
  · rw [accrueEpoch_idle hdone] at hskipped
    cases hskipped
  · unfold accrueEpoch at hskipped
    rw [if_neg hdone] at hskipped
    obtain ⟨result, hvisited, hfailed⟩ := Visits.mem_keysWhere.1 hskipped
    change (k, result) ∈ (visitEach (accrueVisit h block) e.book.positions.keys e s).1 at hvisited
    rw [visitEach_eq_map] at hvisited
    obtain ⟨m, hm, hvisit⟩ := List.mem_map.1 hvisited
    obtain ⟨rfl, hresult⟩ := Prod.mk.inj hvisit
    -- its visit finds the position as it was before the pass, whatever the host has become
    have hsame := accrueMoments_found (Registry.keys_ascending _).nodup hm
    have hparams : m.engine.params = e.params :=
      moments_forall (I := fun e' => e'.params = e.params)
        (fun k e' t he' => (accrueVisit_params h block k e' t).trans he') rfl m hm
    have hfoundThen : m.engine.book.position m.key = .ok p :=
      Book.position_eq_ok.2 (hsame.trans (Book.position_eq_ok.1 hfound))
    have hfreeThen : p.DebtFree m.engine.params.interestPolicy := by rwa [hparams]
    have hhealth : h.healthOrMax m.engine.params m.host p = .ok .largest := by
      rw [hparams]
      exact Host.healthOrMax_of_nothing hfree (hnothing m.host)
    have hcharged : (m.visited (accrueVisit h block)).1 = .ok (p.chargeless block.time) := by
      rw [Moment.visited, accrueVisit_of_debtFree hfoundThen hfreeThen, hhealth]
      rfl
    rw [← hresult, hcharged] at hfailed
    cases hfailed

/-- **A position without debt is as healthy as can be, if a debt of nothing is worth nothing.**
That it is wherever the borrow asset is the base currency, and elsewhere if the host's estimate says
so. Then a forced close finds the position not eligible, unless the threshold is the largest decimal
itself, and its accrual does not fail. Where the debt of nothing has no value, the position has no
health either, and both fail. -/
theorem debt_free_is_healthy (h : Host σ κ) :
    (∀ (s : σ) (asset base : Denom), h.NothingIsNothing s asset base ↔
      asset = base ∨ ∃ route, h.route s asset base = some route ∧
        h.estimateIn s ⟨asset, .zero⟩ route = .ok .zero) ∧
    (∀ (params : Params) (s : σ) (p : Position), p.DebtFree params.interestPolicy →
      (h.NothingIsNothing s p.borrowAsset params.baseCurrency →
        h.healthOrMax params s p = .ok .largest) ∧
      (∀ fault, h.valueOf s .zero p.borrowAsset params.baseCurrency = .error fault →
        h.healthOrMax params s p = .error fault)) ∧
    (∀ (e : Engine) (s : σ) (k : PositionKey) (p : Position) (block : Block),
      e.book.position k = .ok p → p.DebtFree e.params.interestPolicy →
        (h.NothingIsNothing s p.borrowAsset e.params.baseCurrency →
          (¬ e.InClosedPool p → (e.params.liquidationThreshold < .largest ↔
            forceClose h k block (e, s) = (.ok (.notEligible .largest), e, s))) ∧
          (accrueVisit h block k e s).1 = .ok (p.chargeless block.time)) ∧
        ((∀ t, h.NothingIsNothing t p.borrowAsset e.params.baseCurrency) →
          k ∉ (accrueEpoch h e block s).1.skipped) ∧
        (∀ fault, h.valueOf s .zero p.borrowAsset e.params.baseCurrency = .error fault →
          (¬ e.InClosedPool p → forceClose h k block (e, s) = (.error fault, e, s)) ∧
          (accrueVisit h block k e s).1 = .error fault)) := by
  refine ⟨fun s asset base => Host.nothingIsNothing_iff, fun params s p hfree =>
    ⟨Host.healthOrMax_of_nothing hfree, fun fault => Host.healthOrMax_of_error hfree⟩, ?_⟩
  intro e s k p block hfound hfree
  refine ⟨fun hnothing => ?_, not_skipped_of_debtFree hfound hfree, fun fault hvalue => ?_⟩
  · have hhealth := Host.healthOrMax_of_nothing hfree hnothing
    refine ⟨fun hpool => ?_, ?_⟩
    · rw [forceClose_eq_notEligible hfound, eligibility_of_debtFree hfree hpool, hhealth,
        ← Decimal.not_le, ← isLiquidatable_iff]
      by_cases hlow : e.params.isLiquidatable .largest = true
      · simp [Except.map, hlow]
      · simp [Except.map, hlow]
    · rw [accrueVisit_of_debtFree hfound hfree, hhealth]
      rfl
  · have hhealth := Host.healthOrMax_of_error hfree hvalue
    refine ⟨fun hpool => forceClose_of_error hfound ?_, ?_⟩
    · rw [eligibility_of_debtFree hfree hpool, hhealth]
      rfl
    · rw [accrueVisit_of_debtFree hfound hfree, hhealth]
      rfl

end Engine

namespace Sample

/-- The engine with values in some asset, before anything happened. -/
def valuedIn (base : Denom) : Engine :=
  { params := { Params.standard with baseCurrency := base }, book := .empty, events := [] }

/-- The engine after Bob opened a position without a loan. -/
def unlevered (base : Denom) : Engine :=
  (valuedIn base).run (inTurn (valuedIn base) Chain.initial
    [.createPool 1 (.tenths 50) true,
     .openPosition
      { opening with
        owner := bob, collateral := { opening.collateral with denom := .usdc }, leverage := .one }
      ⟨1, 0⟩])

theorem valuedIn_new (base : Denom) :
    Engine.create { Params.standard with baseCurrency := base } = .ok (valuedIn base) := rfl

theorem unlevered_reachable (base : Denom) : (unlevered base).Reachable :=
  (Engine.Reachable.new (valuedIn_new base)).run _

/-- Bob borrowed nothing, whether values are in the asset that is lent or in another. -/
theorem unlevered_bob {base : Denom} (hbase : base = .usdc ∨ base = Chain.usdt) :
    (unlevered base).params.baseCurrency = base ∧
      (unlevered base).params.liquidationThreshold < .largest ∧
      ∃ p, (unlevered base).book.position ⟨bob, 1⟩ = .ok p ∧ p.borrowAsset = .usdc ∧
        p.DebtFree (unlevered base).params.interestPolicy ∧ ¬ (unlevered base).InClosedPool p := by
  have hparams : (unlevered base).params = (valuedIn base).params := by
    rcases hbase with rfl | rfl
    · decide +kernel
    · decide +kernel
  have hrecord : ((unlevered base).book.position ⟨bob, 1⟩).map (fun p => decide
      (p.borrowAsset = .usdc ∧ p.DebtFree (unlevered base).params.interestPolicy ∧
        ((unlevered base).book.pool? p.pool).any Pool.closed = false)) = .ok true := by
    rcases hbase with rfl | rfl
    · decide +kernel
    · decide +kernel
  obtain ⟨p, hfound, hrecord⟩ := except_map_eq_ok.1 hrecord
  obtain ⟨hasset, hfree, hpool⟩ := of_decide_eq_true hrecord
  have hlow : Params.standard.liquidationThreshold < .largest := by decide
  refine ⟨?_, ?_, p, hfound, hasset, hfree, Engine.not_inClosedPool_iff.2 hpool⟩
  · rw [hparams]
    rfl
  · rw [hparams]
    exact hlow

/-- A chain that swaps nothing. -/
def bare : Chain := { Chain.initial with quotes := [] }

/-- Without quotes a debt of nothing has no value in another asset. -/
theorem bare_values_nothing : Chain.host.valueOf bare .zero .usdc Chain.usdt =
    .error (.valuationUnavailable .usdc Chain.usdt .noRoute) := by decide

end Sample

namespace Engine

/-- Without any quotes Bob is still not eligible where values are in the asset that is lent, and
cannot be judged or charged where they are in another. -/
theorem unlevered_bob_without_quotes :
    (∃ p, (Sample.unlevered .usdc).book.position ⟨Sample.bob, 1⟩ = .ok p ∧
      Chain.host.healthOrMax (Sample.unlevered .usdc).params Sample.bare p = .ok .largest ∧
      forceClose Chain.host ⟨Sample.bob, 1⟩ ⟨2, 788400⟩ (Sample.unlevered .usdc, Sample.bare) =
        (.ok (.notEligible .largest), Sample.unlevered .usdc, Sample.bare) ∧
      ⟨Sample.bob, 1⟩ ∉
        (accrueEpoch Chain.host (Sample.unlevered .usdc) ⟨2, 788400⟩ Sample.bare).1.skipped) ∧
    (accrueVisit Chain.host ⟨2, 788400⟩ ⟨Sample.bob, 1⟩ (Sample.unlevered Chain.usdt)
        Sample.bare).1 = .error (.valuationUnavailable .usdc Chain.usdt .noRoute) := by
  obtain ⟨hnothing, hposition, hengine⟩ := debt_free_is_healthy Chain.host
  constructor
  · obtain ⟨hbase, hlow, p, hfound, hasset, hfree, hpool⟩ := Sample.unlevered_bob (.inl rfl)
    have hsame : ∀ t, Chain.host.NothingIsNothing t p.borrowAsset
        (Sample.unlevered .usdc).params.baseCurrency := by
      intro t
      rw [hasset, hbase]
      exact (hnothing t _ _).2 (.inl rfl)
    obtain ⟨hvalued, hpass, -⟩ := hengine _ Sample.bare _ p ⟨2, 788400⟩ hfound hfree
    exact ⟨p, hfound, (hposition _ _ p hfree).1 (hsame _),
      ((hvalued (hsame _)).1 hpool).1 hlow, hpass hsame⟩
  · obtain ⟨hbase, -, p, hfound, hasset, hfree, -⟩ := Sample.unlevered_bob (.inr rfl)
    obtain ⟨-, -, hunvalued⟩ := hengine _ Sample.bare _ p ⟨2, 788400⟩ hfound hfree
    apply (hunvalued _ _).2
    rw [hasset, hbase]
    exact Sample.bare_values_nothing

/-- Where values are in another asset than the one that is lent, a host without quotes leaves Bob
without a health: not every position without debt is healthy. -/
theorem not_all_debt_free_are_healthy :
    ¬ ∀ (σ κ : Type) (h : Host σ κ) (e : Engine) (s : σ) (k : PositionKey) (p : Position)
      (block : Block), e.Reachable → e.book.position k = .ok p →
        p.DebtFree e.params.interestPolicy → ¬ e.InClosedPool p →
          h.healthOrMax e.params s p = .ok .largest ∧
            (forceClose h k block (e, s)).1 = .ok (.notEligible .largest) := by
  intro hall
  obtain ⟨hbase, -, p, hfound, hasset, hfree, hpool⟩ := Sample.unlevered_bob (.inr rfl)
  obtain ⟨hhealth, -⟩ := hall _ _ Chain.host _ Sample.bare _ p ⟨2, 788400⟩
    (Sample.unlevered_reachable Chain.usdt) hfound hfree hpool
  have hunvalued : Chain.host.healthOrMax (Sample.unlevered Chain.usdt).params Sample.bare p =
      .error (.valuationUnavailable .usdc Chain.usdt .noRoute) := by
    apply Host.healthOrMax_of_error hfree
    rw [hasset, hbase]
    exact Sample.bare_values_nothing
  cases hunvalued.symm.trans hhealth

end Engine

end LeveragedLp

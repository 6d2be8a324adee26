import LeveragedLp.Proofs.Admission
import LeveragedLp.Proofs.Ratios
import Mathlib.Tactic.FieldSimp

/-!
# Thresholds and exact values

A health is a rounded quotient, and so is the health of a pool, while a threshold is a decimal that
may have more places than either. Still a rounded quotient is on the same side of every threshold
as the exact one, or at it (`Amount.ratio_sides`): a position whose custody is worth no more than
the threshold's share of its debt is liquidated, one that is worth the safe share is admitted, and
a pool that is left with the share it needs takes the opening
(`Engine.rounding_hides_no_crossing`).
-/

set_option autoImplicit false

namespace LeveragedLp

open EngineM Engine

/-! ## The numbers that decimals stand for -/

namespace Decimal

/-- The number that a decimal stands for. -/
def value (d : Decimal) : ℚ := d.signed / tenPow d.scale

variable {a b t : Decimal}

theorem tenPow_cast_pos (n : Nat) : (0 : ℚ) < tenPow n := by exact_mod_cast tenPow_pos n

theorem le_iff_value_le : a ≤ b ↔ a.value ≤ b.value := by
  have hcross : a.value ≤ b.value ↔
      (a.signed : ℚ) * tenPow b.scale ≤ b.signed * tenPow a.scale :=
    div_le_div_iff₀ (tenPow_cast_pos _) (tenPow_cast_pos _)
  rw [hcross]
  exact_mod_cast Iff.rfl

theorem value_one : one.value = 1 := by
  show ((1 : Int) : ℚ) / (1 : Nat) = 1
  norm_num

/-- A share of an amount is compared over the denominator of the decimal. -/
theorem le_value_mul_iff {m n : Nat} :
    (m : ℚ) ≤ t.value * n ↔ (m : Int) * tenPow t.scale ≤ t.signed * n := by
  rw [value, div_mul_eq_mul_div, le_div_iff₀ (tenPow_cast_pos t.scale)]
  exact_mod_cast Iff.rfl

theorem value_mul_le_iff {m n : Nat} :
    t.value * n ≤ m ↔ t.signed * n ≤ (m : Int) * tenPow t.scale := by
  rw [value, div_mul_eq_mul_div, div_le_iff₀ (tenPow_cast_pos t.scale)]
  exact_mod_cast Iff.rfl

end Decimal

/-- **A ratio is on the same side of every decimal as the exact quotient.** -/
theorem Amount.ratio_sides {a b : Amount} {d : Decimal} (h : a.ratio b = .ok d) (t : Decimal) :
    ((a.units : ℚ) ≤ t.value * b.units → d ≤ t) ∧
      (t.value * b.units ≤ a.units → t ≤ d) :=
  ⟨fun hle => ratio_le h (Decimal.le_value_mul_iff.1 hle),
    fun hle => le_ratio h (Decimal.value_mul_le_iff.1 hle)⟩

/-! ## The health of a position -/

/-- Custody and debt of a position have these values, both small enough for decimals, and
something is owed. -/
structure Host.Appraises {σ κ : Type} (h : Host σ κ) (params : Params) (s : σ) (p : Position)
    (custody debt : Amount) : Prop where
  custody_eq : h.custodyValue params s p = .ok custody
  debt_eq : h.debtValue params s p = .ok debt
  debt_pos : 0 < debt.units
  custody_lt : custody.units < twoPow 96
  debt_lt : debt.units < twoPow 96

section

variable {σ κ : Type} {h : Host σ κ} {params : Params} {s : σ} {p : Position}
variable {custody debt : Amount}

/-- Such a position has a health, the ratio of the two. -/
theorem Host.Appraises.health_eq (x : h.Appraises params s p custody debt) :
    ∃ health, custody.ratio debt = .ok health ∧ h.healthOrMax params s p = .ok health := by
  obtain ⟨health, hratio⟩ := Amount.ratio_isOk_iff.2 ⟨x.debt_pos, x.custody_lt, x.debt_lt⟩
  have hzero : ¬ debt.isZero = true := by
    rw [Amount.isZero_iff]
    exact Nat.ne_of_gt x.debt_pos
  have hhealth : h.health params s p = .ok health := by
    simp [Host.health, x.debt_eq, x.custody_eq, hzero, hratio, bind, Except.bind]
  refine ⟨health, hratio, ?_⟩
  unfold Host.healthOrMax
  rw [hhealth]

/-- A position at or below the threshold by its values is judged so. -/
theorem Host.Appraises.liquidatable (x : h.Appraises params s p custody debt)
    (hle : (custody.units : ℚ) ≤ params.liquidationThreshold.value * debt.units) :
    ∃ health, h.healthOrMax params s p = .ok health ∧ params.isLiquidatable health = true := by
  obtain ⟨health, hratio, hhealth⟩ := x.health_eq
  exact ⟨health, hhealth, isLiquidatable_iff.2 ((Amount.ratio_sides hratio _).1 hle)⟩

/-- And one at or above the safe threshold. -/
theorem Host.Appraises.safe (x : h.Appraises params s p custody debt)
    (hle : params.safeThreshold.value * debt.units ≤ custody.units) :
    ∃ health, h.healthOrMax params s p = .ok health ∧ params.isSafe health = true := by
  obtain ⟨health, hratio, hhealth⟩ := x.health_eq
  exact ⟨health, hhealth, Params.isSafe_iff.2 ((Amount.ratio_sides hratio _).2 hle)⟩

end

/-! ## The health of a pool -/

/-- Whether a fault says that an opening leaves its pool too little free. -/
def Fault.isCapacity : Fault → Bool
  | .poolCapacityExceeded _ _ _ => true
  | _ => false

theorem Amount.ratio_refuses {a b : Amount} {fault : Fault} (h : a.ratio b = .error fault) :
    fault.isCapacity = false := by
  obtain ⟨quantity, rfl⟩ := ratio_eq_error h
  rfl

namespace Pool

/-- The exact part of `total` shares that leveraged positions do not hold. -/
def freeShare (p : Pool) (total : Amount) : ℚ :=
  if total.isZero then 1 else ((total.units : ℚ) - p.leveraged.units) / total.units

/-- The health of a pool is not below a decimal that its free share reaches. -/
theorem le_freePart {p : Pool} {total : Amount} {health t : Decimal}
    (hpart : p.freePart total = .ok health) (hle : t.value ≤ p.freeShare total) : t ≤ health := by
  unfold freePart at hpart
  unfold freeShare at hle
  by_cases hzero : total.isZero = true
  · rw [if_pos hzero] at hpart hle
    cases hpart
    rwa [Decimal.le_iff_value_le, Decimal.value_one]
  · rw [if_neg hzero] at hpart hle
    obtain ⟨free, hfree, hratio⟩ := except_bind_eq_ok.1 hpart
    have hsum : total.units = free.units + p.leveraged.units :=
      Amount.sub?_eq_some_iff.1 (orFault_eq_ok.1 hfree)
    have hpos : (0 : ℚ) < total.units := by
      rw [Amount.isZero_iff] at hzero
      exact_mod_cast Nat.pos_of_ne_zero hzero
    have hsum : (total.units : ℚ) = free.units + p.leveraged.units := by exact_mod_cast hsum
    have hexact : (total.units : ℚ) - p.leveraged.units = free.units := by rw [hsum]; ring
    rw [hexact, le_div_iff₀ hpos] at hle
    exact (Amount.ratio_sides hratio t).2 hle

/-- Shares are refused because of the pool, or because there is no room in a sum. -/
theorem register_refuses {p : Pool} {shares : Amount} {fault : Fault}
    (h : p.register shares = .error fault) : fault.isCapacity = false := by
  rcases except_bind_eq_error.1 h with h | ⟨_, -, h⟩
  · unfold accepting at h
    split at h
    · cases h
      rfl
    · split at h
      · cases h
        rfl
      · cases h
  · rcases except_bind_eq_error.1 h with h | ⟨leveraged, -, h⟩
    · rw [orFault_eq_error h]
      rfl
    · cases h

/-- A pool has no health because of its records, or because an amount is no decimal. -/
theorem freePart_refuses {p : Pool} {total : Amount} {fault : Fault}
    (h : p.freePart total = .error fault) : fault.isCapacity = false := by
  unfold freePart at h
  split at h
  · cases h
  · rcases except_bind_eq_error.1 h with h | ⟨free, -, h⟩
    · rw [orFault_eq_error h]
      rfl
    · exact Amount.ratio_refuses h

end Pool

namespace Engine

variable {σ κ : Type}

variable {e : Engine} {s : σ} {pool id : UInt64} {shares total : Amount} {health : Decimal}

/-- What becomes of entering shares on a pool. -/
theorem expose_fst : (expose pool shares total (e, s)).1 = (do
    let tracked ← e.book.pool pool
    let registered ← tracked.register shares
    let health ← registered.freePart total
    if health < e.params.poolOpenThreshold then
      .error (.poolCapacityExceeded pool health e.params.poolOpenThreshold)
    else .ok ()) := by
  unfold expose
  rw [HostM.bind_apply, asking_apply]
  cases e.book.pool pool with
  | error _ => rfl
  | ok tracked =>
      show ((HostM.ofExcept (tracked.register shares) >>= _) (e, s)).1 = _
      rw [HostM.bind_apply, HostM.ofExcept_apply]
      cases hregister : tracked.register shares with
      | error _ => simp [hregister, bind, Except.bind]
      | ok registered =>
          show ((HostM.ofExcept (registered.refresh total) >>= _) (_, s)).1 = _
          rw [HostM.bind_apply, HostM.ofExcept_apply]
          unfold Pool.refresh
          cases hpart : registered.freePart total with
          | error _ => simp [hregister, hpart, bind, Except.bind]
          | ok health =>
              simp only [hregister, hpart, bind, Except.bind, pure, Except.pure]
              rfl

/-- A pool that is refused for its capacity has a health below the threshold. -/
theorem expose_eq_capacity {threshold : Decimal}
    (h : (expose pool shares total (e, s)).1 = .error (.poolCapacityExceeded id health threshold)) :
    ∃ tracked registered, e.book.pool pool = .ok tracked ∧
      tracked.register shares = .ok registered ∧ registered.freePart total = .ok health ∧
      health < e.params.poolOpenThreshold := by
  rw [expose_fst] at h
  rcases except_bind_eq_error.1 h with h | ⟨tracked, htracked, h⟩
  · cases orFault_eq_error h
  rcases except_bind_eq_error.1 h with h | ⟨registered, hregister, h⟩
  · cases Pool.register_refuses h
  rcases except_bind_eq_error.1 h with h | ⟨found, hfound, h⟩
  · cases Pool.freePart_refuses h
  by_cases hlow : found < e.params.poolOpenThreshold
  · rw [if_pos hlow] at h
    cases h
    exact ⟨tracked, registered, htracked, hregister, hfound, hlow⟩
  · rw [if_neg hlow] at h
    cases h

/-- **Rounding hides no crossing of a threshold.** A ratio that is rounded is on the side of every
decimal that the exact quotient is on. So a position in an open pool whose custody is worth at most
the liquidation threshold's share of its debt is liquidated, a new position that is worth the safe
share is admitted, and an opening that leaves its pool the share it needs is not refused for the
capacity of the pool. -/
theorem rounding_hides_no_crossing (h : Host σ κ) (e : Engine) (s : σ) :
    (∀ (custody debt : Amount) (health t : Decimal), custody.ratio debt = .ok health →
      ((custody.units : ℚ) ≤ t.value * debt.units → health ≤ t) ∧
        (t.value * debt.units ≤ custody.units → t ≤ health)) ∧
    (∀ (p charged : Position) (accrual : Accrual) (block : Block) (custody debt : Amount),
      ¬ e.InClosedPool p → e.chargeUp h p block.time s = .ok (accrual, charged) →
        h.Appraises e.params s charged custody debt →
          (custody.units : ℚ) ≤ e.params.liquidationThreshold.value * debt.units →
            e.eligibility h p block s = .ok (.close .liquidation)) ∧
    (∀ (p : Position) (custody debt : Amount), h.Appraises e.params s p custody debt →
      e.params.safeThreshold.value * debt.units ≤ custody.units →
        ∃ health, e.appraiseNew h p s = .ok health) ∧
    (∀ (pool : UInt64) (tracked registered : Pool) (shares total : Amount),
      e.book.pool pool = .ok tracked → tracked.register shares = .ok registered →
        e.params.poolOpenThreshold.value ≤ registered.freeShare total →
          ∀ fault, (expose pool shares total (e, s)).1 = .error fault →
            fault.isCapacity = false) := by
  refine ⟨fun custody debt health t hratio => Amount.ratio_sides hratio t, ?_, ?_, ?_⟩
  · intro p charged accrual block custody debt hpool hcharge hvalues hle
    obtain ⟨health, hhealth, hlow⟩ := hvalues.liquidatable hle
    have hdue : e.dueHealth h p block s = .ok health := by
      unfold dueHealth
      rw [hcharge]
      exact hhealth
    rw [eligibility_of_not_closed (not_inClosedPool_iff.1 hpool), hdue, Except.map,
      if_pos hlow]
  · intro p custody debt hvalues hle
    obtain ⟨health, hhealth, hsafe⟩ := hvalues.safe hle
    refine ⟨health, ?_⟩
    unfold appraiseNew
    rw [hhealth]
    exact if_pos hsafe
  · intro pool tracked registered shares total htracked hregister hle fault hrefused
    cases fault with
    | poolCapacityExceeded id health threshold =>
        obtain ⟨found, entered, hfound, hentered, hpart, hlow⟩ := expose_eq_capacity hrefused
        cases htracked.symm.trans hfound
        cases hregister.symm.trans hentered
        exact absurd (Pool.le_freePart hpart hle) (Decimal.not_le.2 hlow)
    | _ => rfl

/-- One in three is rounded down at the last of 28 places, to the threshold with these places. A
year after her opening Alice's custody is worth 4884 and she owes 8000, twice as much as before, and
the pool has most of its shares free. -/
theorem a_third_and_alice_stay_on_their_sides :
    let third : Decimal := { negative := false, mantissa := tenPow 28 / 3, scale := 28 }
    let world := Sample.world [.createPool 1 (.tenths 50) true, .openPosition Sample.opening ⟨1, 0⟩]
    (∃ health, Amount.ratio { units := 1 } { units := 3 } = .ok health ∧ third ≤ health) ∧
    (∃ p, world.1.book.position ⟨Sample.alice, 1⟩ = .ok p ∧
      world.1.eligibility Chain.host p ⟨2, 31536000⟩ world.2 = .ok (.close .liquidation) ∧
      ∃ health, world.1.appraiseNew Chain.host p world.2 = .ok health) ∧
    (∃ tracked registered, world.1.book.pool 1 = .ok tracked ∧
      tracked.register { units := 1000 } = .ok registered ∧
      world.1.params.poolOpenThreshold.value ≤ registered.freeShare { units := 204884 } ∧
      ∀ fault, (expose 1 { units := 1000 } { units := 204884 } world).1 = .error fault →
        fault.isCapacity = false) := by
  intro third world
  obtain ⟨hratio, hliquidated, hadmitted, htaken⟩ :=
    rounding_hides_no_crossing Chain.host world.1 world.2
  refine ⟨?_, ?_, ?_⟩
  · obtain ⟨health, hthird⟩ :=
      (Amount.ratio_isOk_iff (a := { units := 1 }) (b := { units := 3 })).2 (by decide)
    have hexact : third.value * (3 : Nat) ≤ (1 : Nat) := Decimal.value_mul_le_iff.2 (by decide)
    exact ⟨health, hthird, (hratio _ _ health third hthird).2 hexact⟩
  · have hvalues : ((world.1.book.position ⟨Sample.alice, 1⟩).bind fun p =>
        (world.1.chargeUp Chain.host p 31536000 world.2).map fun charge => decide
          (Chain.host.custodyValue world.1.params world.2 charge.2 = .ok { units := 4884 } ∧
            Chain.host.debtValue world.1.params world.2 charge.2 = .ok { units := 8000 } ∧
            Chain.host.custodyValue world.1.params world.2 p = .ok { units := 4884 } ∧
            Chain.host.debtValue world.1.params world.2 p = .ok { units := 4000 } ∧
            (world.1.book.pool? p.pool).any Pool.closed = false)) = .ok true := by
      decide +kernel
    obtain ⟨p, hp, hvalues⟩ := except_bind_eq_ok.1 hvalues
    obtain ⟨⟨accrual, charged⟩, hcharge, hvalues⟩ := except_map_eq_ok.1 hvalues
    obtain ⟨hcustody, hdebt, hcustodyNow, hdebtNow, hopen⟩ := of_decide_eq_true hvalues
    have hdue : Chain.host.Appraises world.1.params world.2 charged { units := 4884 }
        { units := 8000 } := ⟨hcustody, hdebt, by decide, by decide, by decide⟩
    have hnow : Chain.host.Appraises world.1.params world.2 p { units := 4884 }
        { units := 4000 } := ⟨hcustodyNow, hdebtNow, by decide, by decide, by decide⟩
    have hparams : world.1.params = .standard := by decide +kernel
    refine ⟨p, hp, hliquidated p charged accrual ⟨2, 31536000⟩ _ _
      (not_inClosedPool_iff.2 hopen) hcharge hdue ?_,
      hadmitted p _ _ hnow ?_⟩
    · rw [hparams]
      exact Decimal.le_value_mul_iff.2 (by decide)
    · rw [hparams]
      exact Decimal.value_mul_le_iff.2 (by decide)
  · have hentered : ((world.1.book.pool 1).bind fun tracked =>
        (tracked.register { units := 1000 }).map fun registered =>
          registered.leveraged.units) = .ok 5884 := by
      decide +kernel
    obtain ⟨tracked, htracked, hentered⟩ := except_bind_eq_ok.1 hentered
    obtain ⟨registered, hregister, hleveraged⟩ := except_map_eq_ok.1 hentered
    have hparams : world.1.params = .standard := by decide +kernel
    have hfree : world.1.params.poolOpenThreshold.value ≤
        registered.freeShare { units := 204884 } := by
      unfold Pool.freeShare
      rw [hparams, hleveraged]
      decide +kernel
    exact ⟨tracked, registered, htracked, hregister, hfree,
      htaken 1 tracked registered _ _ htracked hregister hfree⟩

end Engine

end LeveragedLp

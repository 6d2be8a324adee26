import LeveragedLp.Proofs.Effects

/-!
# Why positions are closed

A sweep and a forced close judge a position by reading alone. What their verdicts mean is said here
once, for the health that a settlement would find (`Engine.dueHealth`): `eligibility_eq_ok` takes a
verdict apart, `sweepReason_eq_some` and `sweepReason_eq_none` what a sweep makes of it.
-/

set_option autoImplicit false

namespace LeveragedLp

namespace Engine

variable {σ κ : Type}

/-- The health of a position with the interest charged that a settlement would charge. -/
def dueHealth (h : Host σ κ) (e : Engine) (p : Position) (block : Block) (s : σ) :
    Except Fault Decimal := do
  let (_, charged) ← e.chargeUp h p block.time s
  h.healthOrMax e.params s charged

/-- A position is in a pool that is closed. -/
def InClosedPool (e : Engine) (p : Position) : Prop :=
  ∃ pool, e.book.pool p.pool = .ok pool ∧ pool.closed = true

/-- A position is in a pool that is not closed. -/
def InOpenPool (e : Engine) (p : Position) : Prop :=
  ∃ pool, e.book.pool p.pool = .ok pool ∧ pool.closed = false

variable {h : Host σ κ} {e : Engine} {p : Position} {block : Block} {s : σ}

theorem any_closed_eq_true (hclosed : (e.book.pool? p.pool).any Pool.closed = true) :
    e.InClosedPool p := by
  obtain ⟨pool, hpool, hclosed⟩ := (Option.any_eq_true _ _).1 hclosed
  exact ⟨pool, Book.pool_eq_ok.2 hpool, hclosed⟩

/-- A tracked pool that is not closed is open. -/
theorem any_closed_eq_false (htracked : (e.book.pool? p.pool).isSome)
    (hclosed : (e.book.pool? p.pool).any Pool.closed = false) : e.InOpenPool p := by
  obtain ⟨pool, hpool⟩ := Option.isSome_iff_exists.1 htracked
  rw [hpool] at hclosed
  exact ⟨pool, Book.pool_eq_ok.2 hpool, hclosed⟩

theorem not_inClosedPool_iff :
    ¬ e.InClosedPool p ↔ (e.book.pool? p.pool).any Pool.closed = false := by
  constructor
  · intro hpool
    exact Bool.eq_false_iff.2 fun hclosed => hpool (any_closed_eq_true hclosed)
  · rintro hopen ⟨pool, hfound, hclosed⟩
    have hget : e.book.pool? p.pool = some pool := Book.pool_eq_ok.1 hfound
    rw [hget, Option.any_some, hclosed] at hopen
    cases hopen

/-- In a pool that is not closed the health decides. -/
theorem eligibility_of_not_closed (hclosed : (e.book.pool? p.pool).any Pool.closed = false) :
    e.eligibility h p block s = (e.dueHealth h p block s).map fun health =>
      if e.params.isLiquidatable health then .close .liquidation else .healthy health := by
  unfold eligibility dueHealth
  rw [hclosed]
  cases e.chargeUp h p block.time s with
  | error _ => rfl
  | ok charge =>
      show (h.healthOrMax e.params s charge.2 >>= _) = (h.healthOrMax e.params s charge.2).map _
      cases h.healthOrMax e.params s charge.2 with
      | error _ => rfl
      | ok health =>
          show (if e.params.isLiquidatable health then pure _ else pure _) = _
          split
          · next hlow => rw [Except.map, if_pos hlow]; rfl
          · next hhigh => rw [Except.map, if_neg hhigh]; rfl

theorem isLiquidatable_iff {params : Params} {health : Decimal} :
    params.isLiquidatable health = true ↔ health ≤ params.liquidationThreshold := decide_eq_true_iff

/-- A closed pool is wound down without a look at the health; in any other the health decides. -/
theorem eligibility_eq_ok {verdict : Eligibility}
    (hjudged : e.eligibility h p block s = .ok verdict) :
    (verdict = .close .poolWindDown ∧ e.InClosedPool p) ∨
    ((e.book.pool? p.pool).any Pool.closed = false ∧
      ∃ health, e.dueHealth h p block s = .ok health ∧
        verdict = if e.params.isLiquidatable health then .close .liquidation
          else .healthy health) := by
  cases hclosed : (e.book.pool? p.pool).any Pool.closed with
  | true =>
      unfold eligibility at hjudged
      rw [hclosed] at hjudged
      cases hjudged
      exact .inl ⟨rfl, any_closed_eq_true hclosed⟩
  | false =>
      rw [eligibility_of_not_closed hclosed] at hjudged
      cases hhealth : e.dueHealth h p block s with
      | error _ =>
          rw [hhealth] at hjudged
          cases hjudged
      | ok health =>
          rw [hhealth] at hjudged
          exact .inr ⟨rfl, health, rfl, (Except.ok.inj hjudged).symm⟩

/-- A verdict to close says that the pool is closed, or that it is not and the health is at or below
the threshold. -/
theorem eligibility_eq_close {reason : CloseReason}
    (hjudged : e.eligibility h p block s = .ok (.close reason)) :
    (reason = .poolWindDown ∧ e.InClosedPool p) ∨
    (reason = .liquidation ∧ (e.book.pool? p.pool).any Pool.closed = false ∧
      ∃ health, e.dueHealth h p block s = .ok health ∧
        health ≤ e.params.liquidationThreshold) := by
  rcases eligibility_eq_ok hjudged with ⟨hverdict, hpool⟩ | ⟨hclosed, health, hdue, hverdict⟩
  · cases hverdict
    exact .inl ⟨rfl, hpool⟩
  · by_cases hlow : e.params.isLiquidatable health = true
    · rw [if_pos hlow] at hverdict
      cases hverdict
      exact .inr ⟨rfl, hclosed, health, hdue, isLiquidatable_iff.1 hlow⟩
    · rw [if_neg hlow] at hverdict
      cases hverdict

/-- A position is left open in a pool that is not closed, with a health above the threshold. -/
theorem eligibility_eq_healthy {health : Decimal}
    (hjudged : e.eligibility h p block s = .ok (.healthy health)) :
    (e.book.pool? p.pool).any Pool.closed = false ∧ e.dueHealth h p block s = .ok health ∧
      e.params.liquidationThreshold < health := by
  rcases eligibility_eq_ok hjudged with ⟨hverdict, -⟩ | ⟨hclosed, found, hdue, hverdict⟩
  · cases hverdict
  · by_cases hlow : e.params.isLiquidatable found = true
    · rw [if_pos hlow] at hverdict
      cases hverdict
    · rw [if_neg hlow] at hverdict
      cases hverdict
      refine ⟨hclosed, hdue, Decimal.not_le.1 fun hle => ?_⟩
      exact hlow (isLiquidatable_iff.2 hle)

/-- A sweep settles a position that is to be closed, or one that is not but whose custody has
reached the take profit price. -/
theorem sweepReason_eq_some {reason : CloseReason}
    (hreason : e.sweepReason h p block s = .ok (some reason)) :
    e.eligibility h p block s = .ok (.close reason) ∨
    (reason = .takeProfit ∧ ∃ health target price,
      e.eligibility h p block s = .ok (.healthy health) ∧ p.takeProfit = some target ∧
        e.priceOf h p.custody.denom s = .ok price ∧ target ≤ price) := by
  obtain ⟨verdict, hjudged, hreason⟩ := except_bind_eq_ok.1 hreason
  cases verdict with
  | close found =>
      cases hreason
      exact .inl hjudged
  | healthy health =>
      obtain ⟨reached, hreached, hreason⟩ := except_bind_eq_ok.1 hreason
      unfold reachesTakeProfit at hreached
      cases htarget : p.takeProfit with
      | none =>
          rw [htarget] at hreached
          cases hreached
          cases hreason
      | some target =>
          rw [htarget] at hreached
          obtain ⟨price, hprice, hreached⟩ := except_bind_eq_ok.1 hreached
          by_cases hle : target ≤ price
          · cases hreached
            rw [if_pos (decide_eq_true hle)] at hreason
            cases hreason
            exact .inr ⟨rfl, health, target, price, hjudged, rfl, hprice, hle⟩
          · cases hreached
            rw [if_neg (by simpa using hle)] at hreason
            cases hreason

/-- Only the owner closes a position without a reason. -/
theorem sweepReason_ne_user {reason : CloseReason}
    (hreason : e.sweepReason h p block s = .ok (some reason)) : reason ≠ .user := by
  rintro rfl
  rcases sweepReason_eq_some hreason with hjudged | ⟨huser, -⟩
  · rcases eligibility_eq_close hjudged with ⟨huser, -⟩ | ⟨huser, -⟩
    · cases huser
    · cases huser
  · cases huser

/-- A sweep leaves a position open that is not to be closed, and whose custody has not reached a
take profit price. -/
theorem sweepReason_eq_none (hreason : e.sweepReason h p block s = .ok none) :
    ∃ health, e.eligibility h p block s = .ok (.healthy health) ∧
      ∀ target, p.takeProfit = some target →
        ∃ price, e.priceOf h p.custody.denom s = .ok price ∧ price < target := by
  obtain ⟨verdict, hjudged, hreason⟩ := except_bind_eq_ok.1 hreason
  cases verdict with
  | close found => cases hreason
  | healthy health =>
      refine ⟨health, hjudged, fun target htarget => ?_⟩
      obtain ⟨reached, hreached, hreason⟩ := except_bind_eq_ok.1 hreason
      unfold reachesTakeProfit at hreached
      rw [htarget] at hreached
      obtain ⟨price, hprice, hreached⟩ := except_bind_eq_ok.1 hreached
      refine ⟨price, hprice, Decimal.not_le.1 fun hle => ?_⟩
      cases hreached
      rw [if_pos (decide_eq_true hle)] at hreason
      cases hreason

end Engine

end LeveragedLp

import LeveragedLp.Health
import LeveragedLp.Proofs.Sums

/-!
# Consolidation

The value of holdings is the exact sum of what each of them is worth. Holdings are added up one by
one, and every partial sum has to be an amount; since none of them is more than the whole, the
holdings have a value just where each one that counts has a value and the whole sum is an amount
(`Host.addUp_eq_ok`). So their order does not matter, nor do holdings of zero, and the value of two
lists put together is the sum of their values. Only the fault of holdings without a value depends on
the order: it is that of the first holding that has no value, or no room in the sum of those before
it (`Host.addUp_eq_error_iff`).

Both facts are inductions on the holdings, for any total to begin with; `Host.SumsExactly` states
them of the value of holdings, which begins with nothing.
-/

set_option autoImplicit false

namespace LeveragedLp

namespace Host

variable {σ κ : Type} {h : Host σ κ} {s : σ} {base : Denom} {total v : Amount} {coin : Coin}
variable {holdings : List Coin}

/-! ## Adding holdings up -/

/-- The total with the values of holdings added to it, those of zero passed over. -/
def addUp (h : Host σ κ) (s : σ) (base : Denom) (total : Amount) (holdings : List Coin) :
    Except Fault Amount :=
  (holdings.filter fun coin => !coin.amount.isZero).foldlM
    (fun total coin => do
      let value ← h.valueOf s coin.amount coin.denom base
      total.add value "consolidated value")
    total

theorem consolidate_eq_addUp (h : Host σ κ) (s : σ) (base : Denom) (holdings : List Coin) :
    h.consolidate s base holdings = h.addUp s base .zero holdings := rfl

theorem addUp_cons_of_zero (hzero : coin.amount.isZero = true) :
    h.addUp s base total (coin :: holdings) = h.addUp s base total holdings := by
  unfold addUp
  rw [List.filter_cons_of_neg (by simp [hzero])]

theorem addUp_cons_of_not_zero (hzero : ¬ coin.amount.isZero = true) :
    h.addUp s base total (coin :: holdings) = (do
      let value ← h.valueOf s coin.amount coin.denom base
      let sum ← total.add value "consolidated value"
      h.addUp s base sum holdings) := by
  unfold addUp
  rw [List.filter_cons_of_pos (by simp [hzero]), List.foldlM_cons]
  simp only [bind_assoc]

/-! ## The exact sum -/

/-- A holding that counts has a value. -/
def Valued (h : Host σ κ) (s : σ) (base : Denom) (coin : Coin) : Prop :=
  ¬ coin.amount.isZero = true → ∃ value, h.valueOf s coin.amount coin.denom base = .ok value

/-- What a holding adds to a sum: its value if it counts and has one, and else nothing. -/
def worth (h : Host σ κ) (s : σ) (base : Denom) (coin : Coin) : Nat :=
  if coin.amount.isZero then 0
  else match h.valueOf s coin.amount coin.denom base with
    | .ok value => value.units
    | .error _ => 0

/-- The sum of what holdings are worth, whether or not there is an amount of so much. -/
def sumOfWorths (h : Host σ κ) (s : σ) (base : Denom) (holdings : List Coin) : Nat :=
  (holdings.map (h.worth s base)).sum

theorem valued_of_zero (hzero : coin.amount.isZero = true) : h.Valued s base coin :=
  fun hcounts => absurd hzero hcounts

theorem worth_of_zero (hzero : coin.amount.isZero = true) : h.worth s base coin = 0 := if_pos hzero

theorem worth_of_valueOf {value : Amount} (hzero : ¬ coin.amount.isZero = true)
    (hvalue : h.valueOf s coin.amount coin.denom base = .ok value) :
    h.worth s base coin = value.units := by
  rw [worth, if_neg hzero, hvalue]

@[simp] theorem sumOfWorths_nil : h.sumOfWorths s base [] = 0 := rfl

@[simp] theorem sumOfWorths_cons :
    h.sumOfWorths s base (coin :: holdings) =
      h.worth s base coin + h.sumOfWorths s base holdings := rfl

@[simp] theorem sumOfWorths_append (xs ys : List Coin) :
    h.sumOfWorths s base (xs ++ ys) = h.sumOfWorths s base xs + h.sumOfWorths s base ys := by
  simp [sumOfWorths]

/-- **Holdings add up exactly.** A partial sum is no more than the whole, so it overflows only where
the whole does. -/
theorem addUp_eq_ok :
    h.addUp s base total holdings = .ok v ↔
      (∀ coin ∈ holdings, h.Valued s base coin) ∧
        v.units = total.units + h.sumOfWorths s base holdings := by
  induction holdings generalizing total with
  | nil =>
      constructor
      · intro hsum
        cases hsum
        exact ⟨fun coin hcoin => absurd hcoin List.not_mem_nil, rfl⟩
      · rintro ⟨-, hunits⟩
        exact congrArg Except.ok (Amount.ext hunits.symm)
  | cons coin holdings ih =>
      rw [List.forall_mem_cons, sumOfWorths_cons]
      by_cases hzero : coin.amount.isZero = true
      · rw [addUp_cons_of_zero hzero, ih, worth_of_zero hzero, Nat.zero_add]
        exact and_congr_left fun _ => (and_iff_right (valued_of_zero hzero)).symm
      · rw [addUp_cons_of_not_zero hzero]
        constructor
        · intro hsum
          obtain ⟨value, hvalue, hsum⟩ := except_bind_eq_ok.1 hsum
          obtain ⟨sum, hadd, hsum⟩ := except_bind_eq_ok.1 hsum
          obtain ⟨hvalued, hunits⟩ := ih.1 hsum
          have hpartial := Amount.add_eq_ok.1 hadd
          rw [worth_of_valueOf hzero hvalue]
          exact ⟨⟨fun _ => ⟨value, hvalue⟩, hvalued⟩, by omega⟩
        · rintro ⟨⟨hcoin, hvalued⟩, hunits⟩
          obtain ⟨value, hvalue⟩ := hcoin hzero
          rw [worth_of_valueOf hzero hvalue] at hunits
          -- the sum up to here is no more than `v`, which is an amount
          have hroom : total.units + value.units < twoPow 128 := by
            have hv := v.units_lt
            omega
          let sum : Amount := ⟨total.units + value.units, hroom⟩
          have hadd : total.add value "consolidated value" = .ok sum := Amount.add_eq_ok.2 rfl
          have hrest : h.addUp s base sum holdings = .ok v := by
            refine ih.2 ⟨hvalued, ?_⟩
            show v.units = total.units + value.units + h.sumOfWorths s base holdings
            omega
          exact except_bind_eq_ok.2 ⟨value, hvalue, except_bind_eq_ok.2 ⟨sum, hadd, hrest⟩⟩

/-! ## Faults -/

/-- A holding ends the addition at a total: it counts, and it has no value or no room. -/
inductive Ends (h : Host σ κ) (s : σ) (base : Denom) (total : Amount) (coin : Coin) :
    Fault → Prop
  | unvalued {fault : Fault} (counts : ¬ coin.amount.isZero = true)
      (value_eq : h.valueOf s coin.amount coin.denom base = .error fault) :
      Ends h s base total coin fault
  | overflow {value : Amount} (counts : ¬ coin.amount.isZero = true)
      (value_eq : h.valueOf s coin.amount coin.denom base = .ok value)
      (full : twoPow 128 ≤ total.units + value.units) :
      Ends h s base total coin (.overflow "consolidated value")

/-- What follows the holding that ends the addition does not matter. -/
theorem Ends.addUp_cons {fault : Fault} (hends : h.Ends s base total coin fault)
    (holdings : List Coin) : h.addUp s base total (coin :: holdings) = .error fault := by
  cases hends with
  | unvalued hcounts hvalue =>
      rw [addUp_cons_of_not_zero hcounts]
      exact except_bind_eq_error.2 (.inl hvalue)
  | @overflow value hcounts hvalue hfull =>
      rw [addUp_cons_of_not_zero hcounts]
      have hadd : total.add value "consolidated value" =
          .error (.overflow "consolidated value") := Amount.add_eq_error.2 ⟨hfull, rfl⟩
      exact except_bind_eq_error.2 (.inr ⟨value, hvalue, except_bind_eq_error.2 (.inl hadd)⟩)

/-- Holdings are added up in order. -/
theorem addUp_append (xs ys : List Coin) :
    h.addUp s base total (xs ++ ys) =
      h.addUp s base total xs >>= fun sum => h.addUp s base sum ys := by
  unfold addUp
  rw [List.filter_append, List.foldlM_append]

/-- **The first holding that cannot be added decides the fault**: all those before it add up. -/
theorem addUp_eq_error_iff {fault : Fault} :
    h.addUp s base total holdings = .error fault ↔
      ∃ before coin after, holdings = before ++ coin :: after ∧
        ∃ sum, h.addUp s base total before = .ok sum ∧ h.Ends s base sum coin fault := by
  constructor
  · intro hfailed
    induction holdings generalizing total with
    | nil => cases hfailed
    | cons coin holdings ih =>
        by_cases hzero : coin.amount.isZero = true
        · rw [addUp_cons_of_zero hzero] at hfailed
          obtain ⟨before, last, after, rfl, sum, hsum, hends⟩ := ih hfailed
          refine ⟨coin :: before, last, after, rfl, sum, ?_, hends⟩
          rw [addUp_cons_of_zero hzero]
          exact hsum
        · rw [addUp_cons_of_not_zero hzero] at hfailed
          rcases except_bind_eq_error.1 hfailed with hvalue | ⟨value, hvalue, hfailed⟩
          · exact ⟨[], coin, holdings, rfl, total, rfl, .unvalued hzero hvalue⟩
          rcases except_bind_eq_error.1 hfailed with hadd | ⟨sum, hadd, hfailed⟩
          · obtain ⟨hfull, rfl⟩ := Amount.add_eq_error.1 hadd
            exact ⟨[], coin, holdings, rfl, total, rfl, .overflow hzero hvalue hfull⟩
          · -- this one was added, so another one behind it was not
            obtain ⟨before, last, after, rfl, sum', hsum', hends⟩ := ih hfailed
            refine ⟨coin :: before, last, after, rfl, sum', ?_, hends⟩
            rw [addUp_cons_of_not_zero hzero]
            exact except_bind_eq_ok.2 ⟨value, hvalue, except_bind_eq_ok.2 ⟨sum, hadd, hsum'⟩⟩
  · rintro ⟨before, coin, after, rfl, sum, hsum, hends⟩
    rw [addUp_append, hsum]
    exact hends.addUp_cons after

/-! ## The value of holdings -/

/-- What the value of holdings is, in one state of a host and one asset: there is one just where all
holdings that count have values whose exact sum is an amount, and it is that sum. -/
structure SumsExactly (h : Host σ κ) (s : σ) (base : Denom) : Prop where
  isOk_iff : ∀ holdings, (∃ v, h.consolidate s base holdings = .ok v) ↔
    (∀ coin ∈ holdings, h.Valued s base coin) ∧ h.sumOfWorths s base holdings < twoPow 128
  value : ∀ holdings v, h.consolidate s base holdings = .ok v →
    v.units = h.sumOfWorths s base holdings
  /-- The order of the holdings does not matter to the value. -/
  perm : ∀ xs ys, xs.Perm ys → ∀ v,
    h.consolidate s base xs = .ok v ↔ h.consolidate s base ys = .ok v
  /-- A holding of zero may stand anywhere, also where there is no value. -/
  zero : ∀ before coin after, coin.amount.isZero = true →
    h.consolidate s base (before ++ coin :: after) = h.consolidate s base (before ++ after)
  /-- The value of a concatenation is the sum of the values. -/
  append : ∀ xs ys a b, h.consolidate s base xs = .ok a → h.consolidate s base ys = .ok b → ∀ v,
    h.consolidate s base (xs ++ ys) = .ok v ↔ v.units = a.units + b.units
  /-- Both parts of a concatenation that has a value have one. -/
  parts : ∀ xs ys v, h.consolidate s base (xs ++ ys) = .ok v →
    ∃ a b, h.consolidate s base xs = .ok a ∧ h.consolidate s base ys = .ok b
  /-- The fault is that of the first holding that has no value, or no room in the sum. -/
  fault : ∀ holdings fault, h.consolidate s base holdings = .error fault ↔
    ∃ before coin after, holdings = before ++ coin :: after ∧
      ∃ sum, h.consolidate s base before = .ok sum ∧ h.Ends s base sum coin fault

theorem consolidate_eq_ok :
    h.consolidate s base holdings = .ok v ↔
      (∀ coin ∈ holdings, h.Valued s base coin) ∧ v.units = h.sumOfWorths s base holdings := by
  have hsum : Amount.zero.units + h.sumOfWorths s base holdings = h.sumOfWorths s base holdings :=
    Nat.zero_add _
  rw [consolidate_eq_addUp, addUp_eq_ok, hsum]

/-- Where every holding that counts has a value, only the size of the sum matters. -/
theorem consolidate_isOk_iff :
    (∃ v, h.consolidate s base holdings = .ok v) ↔
      (∀ coin ∈ holdings, h.Valued s base coin) ∧ h.sumOfWorths s base holdings < twoPow 128 := by
  constructor
  · rintro ⟨v, hv⟩
    obtain ⟨hvalued, hunits⟩ := consolidate_eq_ok.1 hv
    rw [← hunits]
    exact ⟨hvalued, v.units_lt⟩
  · rintro ⟨hvalued, hlt⟩
    exact ⟨⟨_, hlt⟩, consolidate_eq_ok.2 ⟨hvalued, rfl⟩⟩

theorem consolidate_perm {xs ys : List Coin} (hperm : xs.Perm ys) :
    h.consolidate s base xs = .ok v ↔ h.consolidate s base ys = .ok v := by
  have hsum : h.sumOfWorths s base xs = h.sumOfWorths s base ys := (hperm.map _).sum_eq
  rw [consolidate_eq_ok, consolidate_eq_ok, hsum]
  exact and_congr_left fun _ => forall_congr' fun coin => imp_congr_left hperm.mem_iff

theorem consolidate_append {xs ys : List Coin} :
    h.consolidate s base (xs ++ ys) = .ok v ↔
      ∃ a b, h.consolidate s base xs = .ok a ∧ h.consolidate s base ys = .ok b ∧
        v.units = a.units + b.units := by
  constructor
  · intro hv
    obtain ⟨hvalued, hunits⟩ := consolidate_eq_ok.1 hv
    obtain ⟨hxs, hys⟩ := List.forall_mem_append.1 hvalued
    rw [sumOfWorths_append] at hunits
    have hlt := v.units_lt
    -- each part is worth no more than both
    obtain ⟨a, ha⟩ := consolidate_isOk_iff.2 ⟨hxs, by omega⟩
    obtain ⟨b, hb⟩ := consolidate_isOk_iff.2 ⟨hys, by omega⟩
    have hunits_a := (consolidate_eq_ok.1 ha).2
    have hunits_b := (consolidate_eq_ok.1 hb).2
    exact ⟨a, b, ha, hb, by omega⟩
  · rintro ⟨a, b, ha, hb, hunits⟩
    obtain ⟨hxs, hunits_a⟩ := consolidate_eq_ok.1 ha
    obtain ⟨hys, hunits_b⟩ := consolidate_eq_ok.1 hb
    refine consolidate_eq_ok.2 ⟨List.forall_mem_append.2 ⟨hxs, hys⟩, ?_⟩
    rw [sumOfWorths_append]
    omega

/-- **The value of holdings is an exact sum, in any order.** -/
theorem consolidate_sumsExactly (h : Host σ κ) (s : σ) (base : Denom) : h.SumsExactly s base where
  isOk_iff _ := consolidate_isOk_iff
  value _ _ hv := (consolidate_eq_ok.1 hv).2
  perm _ _ hperm _ := consolidate_perm hperm
  zero before coin after hzero := by
    unfold consolidate
    rw [List.filter_append, List.filter_append, List.filter_cons_of_neg (by simp [hzero])]
  append xs ys a b ha hb v := by
    rw [consolidate_append]
    constructor
    · rintro ⟨a', b', ha', hb', hunits⟩
      cases ha'.symm.trans ha
      cases hb'.symm.trans hb
      exact hunits
    · intro hunits
      exact ⟨a, b, ha, hb, hunits⟩
  parts xs ys v hv := by
    obtain ⟨a, b, ha, hb, -⟩ := consolidate_append.1 hv
    exact ⟨a, b, ha, hb⟩
  fault _ _ := addUp_eq_error_iff

end Host

end LeveragedLp

import LeveragedLp.Chain.Host

/-!
# Valuation

Amounts of different assets are compared by what the host's pools would give for them. An asset
is worth its own amount in itself; otherwise the host has to know a route and answer an
estimate. Nothing here moves funds.
-/

set_option autoImplicit false

namespace LeveragedLp

namespace Host

variable {σ κ : Type}

/-- What an estimate along the route between two assets gives. -/
def estimated (h : Host σ κ) (s : σ) (source target : Denom)
    (estimate : SwapRoute → Except HostFault Amount) : Except Fault Amount :=
  match h.route s source target with
  | none => .error (.valuationUnavailable source target .noRoute)
  | some route =>
    (estimate route).mapError fun fault => .valuationUnavailable source target (.host fault)

/-- What an amount of one asset would swap into. -/
def valueOf (h : Host σ κ) (s : σ) (amount : Amount) (source target : Denom) :
    Except Fault Amount :=
  if source = target then .ok amount
  else h.estimated s source target (h.estimateIn s ⟨source, amount⟩)

/-- What amount of one asset would be needed to get an amount of another. -/
def costOf (h : Host σ κ) (s : σ) (amount : Amount) (source target : Denom) :
    Except Fault Amount :=
  if source = target then .ok amount
  else h.estimated s source target (h.estimateOut s ⟨target, amount⟩)

/-- The value in another asset is what the host estimates along the route. -/
theorem valueOf_eq_ok {h : Host σ κ} {s : σ} {source target : Denom} {amount value : Amount}
    (hne : source ≠ target) :
    h.valueOf s amount source target = .ok value ↔ ∃ route,
      h.route s source target = some route ∧
        h.estimateIn s ⟨source, amount⟩ route = .ok value := by
  unfold valueOf estimated
  rw [if_neg hne]
  cases hroute : h.route s source target with
  | none =>
      constructor
      · intro hvalue
        cases hvalue
      · rintro ⟨route, hsome, -⟩
        cases hsome
  | some route =>
      show (h.estimateIn s ⟨source, amount⟩ route).mapError _ = .ok value ↔ _
      constructor
      · intro hvalue
        refine ⟨route, rfl, ?_⟩
        cases hestimate : h.estimateIn s ⟨source, amount⟩ route with
        | error _ =>
            rw [hestimate] at hvalue
            cases hvalue
        | ok _ =>
            rw [hestimate] at hvalue
            exact congrArg Except.ok (Except.ok.inj hvalue)
      · rintro ⟨found, hfound, hvalue⟩
        cases hfound
        rw [hvalue]
        rfl

/-- An amount without a value is told by its assets. -/
theorem valueOf_eq_error {h : Host σ κ} {s : σ} {source target : Denom} {amount : Amount}
    {fault : Fault} (hvalue : h.valueOf s amount source target = .error fault) :
    ∃ gap, fault = .valuationUnavailable source target gap := by
  unfold valueOf estimated at hvalue
  split at hvalue
  · cases hvalue
  · split at hvalue
    · exact ⟨_, (Except.error.inj hvalue).symm⟩
    · next route hroute =>
      cases hestimate : h.estimateIn s ⟨source, amount⟩ route with
      | error _ =>
          rw [hestimate] at hvalue
          exact ⟨_, (Except.error.inj hvalue).symm⟩
      | ok _ =>
          rw [hestimate] at hvalue
          cases hvalue

/-- What something is worth depends on the host's routes and estimates only. -/
theorem valueOf_congr {h : Host σ κ} {s t : σ} (hroute : h.route t = h.route s)
    (hestimate : h.estimateIn t = h.estimateIn s) : h.valueOf t = h.valueOf s := by
  funext amount source target
  simp only [valueOf, estimated, hroute, hestimate]

/-- The value of holdings in one asset. Holdings of zero are passed over, and the first that has
no value, or no room in the sum, decides the fault. -/
def consolidate (h : Host σ κ) (s : σ) (base : Denom) (holdings : List Coin) :
    Except Fault Amount :=
  (holdings.filter fun coin => !coin.amount.isZero).foldlM
    (fun total coin => do
      let value ← h.valueOf s coin.amount coin.denom base
      total.add value "consolidated value")
    .zero

end Host

end LeveragedLp

import LeveragedLp.Params
import LeveragedLp.Position
import LeveragedLp.Valuation

/-!
# Health

The health of a position is the value of what backs it over the value of what it owes, both in
the base currency. Where nothing is owed the quotient is undefined, and the position counts as
healthy as a decimal can say.
-/

set_option autoImplicit false

namespace LeveragedLp

namespace Host

variable {σ κ : Type}

/-- The value of custody and free collateral. -/
def custodyValue (h : Host σ κ) (params : Params) (s : σ) (p : Position) : Except Fault Amount :=
  h.consolidate s params.baseCurrency p.holdings

/-- The value of the debt. -/
def debtValue (h : Host σ κ) (params : Params) (s : σ) (p : Position) : Except Fault Amount := do
  let debt ← p.debt params.interestPolicy
  h.valueOf s debt p.borrowAsset params.baseCurrency

/-- The health of a position that owes something. -/
def health (h : Host σ κ) (params : Params) (s : σ) (p : Position) : Except Fault Decimal := do
  let debt ← h.debtValue params s p
  if debt.isZero then throw .degenerateHealth
  let custody ← h.custodyValue params s p
  custody.ratio debt

/-- The health of a position, the largest decimal where nothing is owed. -/
def healthOrMax (h : Host σ κ) (params : Params) (s : σ) (p : Position) : Except Fault Decimal :=
  match h.health params s p with
  | .error .degenerateHealth => .ok .largest
  | answer => answer

/-- A health depends on what things are worth, and on nothing else of a host. -/
theorem healthOrMax_congr {σ' κ' : Type} {h : Host σ κ} {h' : Host σ' κ'} {s : σ} {t : σ'}
    (hvalue : h'.valueOf t = h.valueOf s) (params : Params) (p : Position) :
    h'.healthOrMax params t p = h.healthOrMax params s p := by
  simp only [healthOrMax, health, debtValue, custodyValue, consolidate, hvalue]

end Host

end LeveragedLp

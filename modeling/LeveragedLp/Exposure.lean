import LeveragedLp.Checked

/-!
# Exposure of a pool

For each pool the engine tracks how many of its shares leveraged positions hold. The pool's
health is the part of all shares that they do not hold: one for a pool without shares, and a
fault where positions would hold more shares than there are. A closed pool takes on no new
exposure, and neither does a disabled one; exposure can be released from any pool.
-/

set_option autoImplicit false

namespace LeveragedLp

/-- What the engine keeps about a pool. -/
structure Pool where
  id : UInt64
  /-- The part of the shares that leveraged positions do not hold. -/
  health : Decimal
  enabled : Bool
  closed : Bool
  /-- The shares that leveraged positions hold. -/
  leveraged : Amount
  leverageMax : Decimal
deriving DecidableEq

namespace Pool

/-- A pool without exposure. -/
def fresh (id : UInt64) (leverageMax : Decimal) (enabled : Bool) : Pool where
  id := id
  health := .one
  enabled := enabled
  closed := false
  leveraged := .zero
  leverageMax := leverageMax

/-- Refuses a pool that takes on no exposure. -/
def accepting (p : Pool) : Except Fault Unit :=
  if p.closed then .error (.poolUnavailable p.id .closed)
  else if !p.enabled then .error (.poolUnavailable p.id .disabled)
  else .ok ()

/-- Refuses a leverage below one or above the pool's limit. -/
def admits (p : Pool) (leverage : Decimal) : Except Fault Unit := do
  p.accepting
  if leverage < .one ∨ p.leverageMax < leverage then
    throw (.invalidLeverage leverage p.leverageMax)

/-- The pool with more shares held by positions. -/
def register (p : Pool) (shares : Amount) : Except Fault Pool := do
  p.accepting
  let leveraged ← p.leveraged.add shares "leveraged lp amount"
  return { p with leveraged }

/-- The pool with fewer shares held by positions. -/
def release (p : Pool) (shares : Amount) : Except Fault Pool := do
  let leveraged ←
    orFault (.invariantViolation (.release p.id shares p.leveraged)) (p.leveraged.sub? shares)
  return { p with leveraged }

/-- The part of `total` shares that leveraged positions do not hold. -/
def freePart (p : Pool) (total : Amount) : Except Fault Decimal := do
  if total.isZero then return .one
  let free ← orFault (.invariantViolation (.excess p.id p.leveraged total)) (total.sub? p.leveraged)
  free.ratio total

/-- The pool with its health brought up to date. -/
def refresh (p : Pool) (total : Amount) : Except Fault Pool := do
  let health ← p.freePart total
  return { p with health }

end Pool

end LeveragedLp

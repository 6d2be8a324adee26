import LeveragedLp.Checked

/-!
# Positions

A position records what an owner posted, what the engine borrowed for it and holds in custody,
and the interest charged so far. It is filed under its owner and its number.
-/

set_option autoImplicit false

namespace LeveragedLp

/-- Owner and number of a position. -/
structure PositionKey where
  owner : Address
  id : UInt64
deriving DecidableEq

namespace PositionKey

/-- Keys are ordered by owner, then by number. -/
instance : Ord PositionKey where
  compare := compareLex (compareOn fun k => k.owner.text) (compareOn fun k => k.id)

/-- Owner and number with a `#` between them. -/
def text (k : PositionKey) : String := s!"{k.owner.text}#{k.id.toNat}"

end PositionKey

/-- An open leveraged position. -/
structure Position where
  id : UInt64
  owner : Address
  /-- The pool whose shares are held. -/
  pool : UInt64
  direction : Direction
  /-- The leverage asked for at opening. -/
  leverage : Decimal
  /-- The health found when it was last computed. -/
  health : Decimal
  /-- What the owner posted at opening. -/
  collateral : Coin
  /-- Collateral added later, in the borrow asset and outside the pool. -/
  freeCollateral : Amount
  /-- The price of the custody asset at which the position is to be closed. -/
  takeProfit : Option Decimal
  /-- The pool shares held for the position. -/
  custody : Coin
  borrowAsset : Denom
  /-- The borrowed principal and, where interest is stacked, the interest added to it. -/
  liabilities : Amount
  /-- Interest paid from free collateral. -/
  interestPaid : Amount
  /-- The worth of the interest paid, in the custody asset. -/
  interestPaidCustody : Amount
  /-- Interest that free collateral did not cover. -/
  interestUnpaid : Amount
  openedAt : UInt64
  /-- The time up to which interest is charged. -/
  accruedUntil : UInt64
deriving DecidableEq

namespace Position

def key (p : Position) : PositionKey := ⟨p.owner, p.id⟩

/-- What is owed to the lending facility. -/
def debt (p : Position) : InterestPolicy → Except Fault Amount
  | .stacked => .ok p.liabilities
  | .separate => p.liabilities.add p.interestUnpaid "position debt"

/-- What backs the position: custody and free collateral. -/
def holdings (p : Position) : List Coin := [p.custody, ⟨p.borrowAsset, p.freeCollateral⟩]

end Position

end LeveragedLp

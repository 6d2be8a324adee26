import LeveragedLp.Chain.Host
import LeveragedLp.Registry

/-!
# A chain in memory

The state of a small chain that can serve the engine as its host: balances, prices, pools and
the quotes for swaps between assets are listed outright, and any call can be made to fail. A
failure that comes late strikes after the call has done its work.
-/

set_option autoImplicit false

namespace LeveragedLp

/-- Account and asset of a balance. -/
structure BalanceKey where
  account : Address
  denom : Denom
deriving DecidableEq

/-- Balances are ordered by account, then by asset. -/
instance : Ord BalanceKey where
  compare := compareLex (compareOn fun k => k.account.text) (compareOn fun k => k.denom.text)

instance : Std.TransOrd BalanceKey := inferInstanceAs <| Std.TransCmp (compareLex _ _)

instance : Std.LawfulEqOrd BalanceKey where
  eq_of_compare {a b} h := by
    obtain ⟨⟨s, hs⟩, ⟨d, hd⟩⟩ := a
    obtain ⟨⟨t, ht⟩, ⟨f, hf⟩⟩ := b
    have h' := compareLex_eq_eq.1 h
    have hst : s = t := Std.LawfulEqOrd.eq_of_compare h'.1
    have hdf : d = f := Std.LawfulEqOrd.eq_of_compare h'.2
    subst hst hdf
    rfl

instance : Std.TransOrd Denom := inferInstanceAs <| Std.TransCmp (compareOn Denom.text)

instance : Std.LawfulEqOrd Denom where
  eq_of_compare {a b} h := by
    obtain ⟨s, hs⟩ := a
    obtain ⟨t, ht⟩ := b
    have hst : s = t := Std.LawfulEqOrd.eq_of_compare h
    subst hst
    rfl

structure Balance where
  key : BalanceKey
  amount : Amount
deriving DecidableEq

structure Price where
  denom : Denom
  price : Decimal
deriving DecidableEq

/-- A liquidity pool of the chain. -/
structure AmmPool where
  id : UInt64
  assets : List Denom
  totalShares : Amount
  /-- The value locked in the pool. -/
  tvl : Decimal
deriving DecidableEq

/-- The quote for swaps from one asset to another: `num / den` for a unit, and perhaps a limit. -/
structure Quote where
  source : Denom
  target : Denom
  pool : UInt64
  num : Amount
  den : Amount
  maxOut : Option Amount
deriving DecidableEq

/-- The calls that can be made to fail. -/
inductive HostCall where
  | send
  | swap
  | borrow
  | repay
  | payInterest
  | writeOff
  | absorb
  | estimateIn
  | estimateOut
  | totalShares
  | tvl
  | price
deriving DecidableEq

/-- A failure that a call is made to report. -/
structure Outage where
  call : HostCall
  fault : HostFault
  late : Bool
deriving DecidableEq

instance : Keyed Balance BalanceKey := ⟨Balance.key⟩

instance : Keyed Price Denom := ⟨Price.denom⟩

instance : Keyed AmmPool UInt64 := ⟨AmmPool.id⟩

/-- The state of the chain. -/
structure Chain where
  lendingDenom : Denom
  rate : Decimal
  /-- What the lending facility says it could lend, where that is not its balance. -/
  availableOverride : Option Amount
  balances : Registry Balance
  prices : Registry Price
  pools : Registry AmmPool
  /-- In the order in which they are looked up. -/
  quotes : List Quote
  outages : List Outage
  /-- Principal lent and not yet repaid or written off. -/
  outstanding : Amount
  interestReceived : Amount
  writtenOff : Amount
  /-- The losses handed to the insurance fund, oldest first. -/
  insurance : List (UInt64 × Coin)
  /-- How many checkpoints were taken. -/
  checkpoints : Nat
deriving DecidableEq

namespace Chain

/-- The account of the lending facility. -/
def lender : Address := .ofModule "stablestake"

/-! ## Setting the scene -/

variable (c : Chain)

def setBalance (account : Address) (denom : Denom) (amount : Amount) : Chain :=
  { c with balances := c.balances.insert ⟨⟨account, denom⟩, amount⟩ }

def setPrice (denom : Denom) (price : Decimal) : Chain :=
  { c with prices := c.prices.insert ⟨denom, price⟩ }

def removePrice (denom : Denom) : Chain := { c with prices := c.prices.erase denom }

def setPool (pool : AmmPool) : Chain := { c with pools := c.pools.insert pool }

def removeQuote (source target : Denom) : Chain :=
  { c with quotes := c.quotes.filter fun q => !(q.source == source && q.target == target) }

/-- Whether two quotes are for the same swap. -/
def sameSwap (p q : Quote) : Bool := p.source == q.source && p.target == q.target

/-- Lists a quote, in the place of one for the same swap if there is one. -/
def setQuote (quote : Quote) : Chain :=
  if c.quotes.any (sameSwap quote) then
    { c with quotes := c.quotes.map fun q => if sameSwap quote q then quote else q }
  else { c with quotes := c.quotes ++ [quote] }

/-- Mends a call. -/
def mend (call : HostCall) : Chain := { c with outages := c.outages.filter fun o => o.call != call }

/-- Makes a call fail. -/
def fail (outage : Outage) : Chain :=
  { c.mend outage.call with outages := (c.mend outage.call).outages ++ [outage] }

/-- What an account has of an asset. -/
def balanceOf (account : Address) (denom : Denom) : Amount :=
  match c.balances.get? ⟨account, denom⟩ with
  | some balance => balance.amount
  | none => .zero

/-- The failure that a call reports before it does anything. -/
def earlyFault? (call : HostCall) : Option HostFault :=
  (c.outages.find? fun o => o.call == call && !o.late).map Outage.fault

/-- The failure that a call reports after it did its work. -/
def lateFault? (call : HostCall) : Option HostFault :=
  (c.outages.find? fun o => o.call == call && o.late).map Outage.fault

end Chain

end LeveragedLp

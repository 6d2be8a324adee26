import LeveragedLp.Chain.State

/-!
# The chain as a host

Every call of `Host` on the chain in memory. Swaps follow the listed quotes, rounding the output
down; a swap into or out of the shares of a pool changes the pool's total. A call that fails
halfway leaves in place what it did before, as `Host` allows.
-/

set_option autoImplicit false

namespace LeveragedLp

namespace Chain

/-- A call on the chain that may fail. -/
abbrev Call := ExceptT HostFault (StateM Chain)

/-! ## Quotes -/

/-- A product of amounts, when it is an amount. -/
def product (a b : Amount) : Except HostFault Nat :=
  if a.units * b.units < twoPow 128 then .ok (a.units * b.units)
  else .error (.rejected "quote overflow")

/-- A natural number known to be small enough, as an amount. -/
def toAmount (n : Nat) : Except HostFault Amount :=
  match Amount.ofNat? n with
  | some a => .ok a
  | none => .error (.rejected "quote overflow")

/-- The quote for swaps from one asset to another. -/
def quote? (c : Chain) (source target : Denom) : Option Quote :=
  c.quotes.find? fun q => q.source == source && q.target == target

/-- Refuses an output above the limit of a quote. -/
def checkLimit (q : Quote) (out : Amount) : Except HostFault Unit :=
  match q.maxOut with
  | none => .ok ()
  | some limit =>
    if limit < out then
      .error (.insufficientLiquidity
        s!"pool {q.pool.toNat} has {limit.text}{q.target.text}")
    else .ok ()

/-- What an amount of one asset swaps into. -/
def quoted (c : Chain) (source target : Denom) (amount : Amount) : Except HostFault Amount := do
  match c.quote? source target with
  | none => throw (.noRoute source.text target.text)
  | some q =>
    let scaled ← product amount q.num
    let out ← toAmount (scaled / q.den.units)
    checkLimit q out
    return out

/-! ## Reading -/

/-- Reports the failure that a call is made to report, if any. -/
def unlessBroken {α : Type} (c : Chain) (call : HostCall) (x : Except HostFault α) :
    Except HostFault α :=
  match c.earlyFault? call with
  | some fault => .error fault
  | none => x

def route (c : Chain) (source target : Denom) : Option SwapRoute :=
  (c.quote? source target).map fun q => ⟨q.pool, q.target⟩

def estimateIn (c : Chain) (coin : Coin) (route : SwapRoute) : Except HostFault Amount :=
  c.unlessBroken .estimateIn (c.quoted coin.denom route.target coin.amount)

def estimateOut (c : Chain) (coin : Coin) (route : SwapRoute) : Except HostFault Amount :=
  c.unlessBroken .estimateOut do
    match c.quotes.find? fun q => q.pool == route.pool && q.target == coin.denom with
    | none => throw (.rejected "no input asset")
    | some q =>
      if q.num.isZero then throw (.rejected "zero rate")
      let scaled ← product coin.amount q.den
      toAmount ((scaled + (q.num.units - 1)) / q.num.units)

/-- A pool of the chain. -/
def pool (c : Chain) (id : UInt64) : Except HostFault AmmPool :=
  match c.pools.get? id with
  | some pool => .ok pool
  | none => .error (.unknownPool id)

def poolTvl (c : Chain) (id : UInt64) : Except HostFault Decimal :=
  c.unlessBroken .tvl ((c.pool id).map AmmPool.tvl)

def poolTotalShares (c : Chain) (id : UInt64) : Except HostFault Amount :=
  c.unlessBroken .totalShares ((c.pool id).map AmmPool.totalShares)

def liquidityPools (c : Chain) : List PoolListing :=
  c.pools.toList.map fun pool => ⟨pool.id, pool.assets, pool.totalShares⟩

def price (c : Chain) (denom : Denom) : Except HostFault Decimal :=
  c.unlessBroken .price <|
    match c.prices.get? denom with
    | some listed => .ok listed.price
    | none => .error (.priceUnavailable denom.text)

def available (c : Chain) : Amount := c.availableOverride.getD (c.balanceOf lender c.lendingDenom)

/-! ## Moving funds -/

/-- Takes an amount off a balance. -/
def debit (account : Address) (coin : Coin) : Call Unit := do
  let held := (← get).balanceOf account coin.denom
  match held.sub? coin.amount with
  | some rest => modify fun c => c.setBalance account coin.denom rest
  | none => throw (.insufficientFunds held coin.amount)

/-- Adds an amount to a balance. -/
def credit (account : Address) (coin : Coin) : Call Unit := do
  let held := (← get).balanceOf account coin.denom
  match held.add? coin.amount with
  | some sum => modify fun c => c.setBalance account coin.denom sum
  | none => throw (.rejected "balance overflow")

/-- Moves a coin from one account to another. -/
def transfer (source target : Address) (coin : Coin) : Call Unit := do
  debit source coin
  credit target coin

/-- A call that can be made to fail, before or after its work. -/
def breakable {α : Type} (call : HostCall) (work : Call α) : Call α := do
  match (← get).earlyFault? call with
  | some fault => throw fault
  | none =>
    let result ← work
    match (← get).lateFault? call with
    | some fault => throw fault
    | none => return result

/-- A coin of the lending asset. -/
def lendingCoin (amount : Amount) : Call Coin := return ⟨(← get).lendingDenom, amount⟩

/-- A pool after a swap of `coin` for `out` of `target`: shares that were put out join the
total, shares that were taken in leave it. -/
def settlePool (pool : AmmPool) (coin : Coin) (target : Denom) (out : Amount) :
    Except HostFault AmmPool :=
  if target = .poolShare pool.id then
    match pool.totalShares.add? out with
    | some totalShares => .ok { pool with totalShares }
    | none => .error (.rejected "share overflow")
  else if coin.denom = .poolShare pool.id then
    match pool.totalShares.sub? coin.amount with
    | some totalShares => .ok { pool with totalShares }
    | none => .error (.rejected "share underflow")
  else .ok pool

def swap (sender : Address) (coin : Coin) (route : SwapRoute) (least : Amount) : Call Amount :=
  breakable .swap do
    let out ← liftM ((← get).quoted coin.denom route.target coin.amount)
    if out < least then throw (.slippage out least)
    debit sender coin
    credit sender ⟨route.target, out⟩
    let pool ← liftM ((← get).pool route.pool)
    let pool ← liftM (settlePool pool coin route.target out)
    modify fun c => c.setPool pool
    return out

def send (source target : Address) (coin : Coin) : Call Unit :=
  breakable .send (transfer source target coin)

def borrow (target : Address) (amount : Amount) : Call Unit :=
  breakable .borrow do
    transfer lender target (← lendingCoin amount)
    modify fun c => { c with outstanding := c.outstanding.saturatingAdd amount }

/-- What a repayment does to the records: principal first, the rest counts as interest. -/
def bookRepayment (c : Chain) (amount : Amount) : Chain :=
  let principal := amount.least c.outstanding
  { c with
    outstanding := c.outstanding.saturatingSub principal
    interestReceived := c.interestReceived.saturatingAdd (amount.saturatingSub principal) }

def repay (source : Address) (amount : Amount) : Call Unit :=
  breakable .repay do
    transfer source lender (← lendingCoin amount)
    modify fun c => c.bookRepayment amount

def payInterest (source : Address) (amount : Amount) : Call Unit :=
  breakable .payInterest do
    transfer source lender (← lendingCoin amount)
    modify fun c => { c with interestReceived := c.interestReceived.saturatingAdd amount }

def writeOff (amount : Amount) : Call Unit :=
  breakable .writeOff do
    modify fun c =>
      { c with
        outstanding := c.outstanding.saturatingSub amount
        writtenOff := c.writtenOff.saturatingAdd amount }

def absorb (pool : UInt64) (coin : Coin) : Call Unit :=
  breakable .absorb do
    modify fun c => { c with insurance := c.insurance ++ [(pool, coin)] }

/-- A copy of the chain, which counts the checkpoint itself. -/
def checkpoint (c : Chain) : Chain × Chain :=
  let counted := { c with checkpoints := c.checkpoints + 1 }
  (counted, counted)

/-- The chain as a host; its snapshots are copies of it. -/
def host : Host Chain Chain where
  route := route
  estimateIn := estimateIn
  estimateOut := estimateOut
  poolTvl := poolTvl
  poolTotalShares := poolTotalShares
  liquidityPools := liquidityPools
  price := price
  balance := balanceOf
  lendingDenom := lendingDenom
  interestRate := rate
  available := available
  swap := swap
  send := send
  borrow := borrow
  repay := repay
  payInterest := payInterest
  writeOff := writeOff
  absorb := absorb
  checkpoint := checkpoint
  restore := fun copy _ => copy

end Chain

end LeveragedLp

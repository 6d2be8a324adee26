import LeveragedLp.Checked

/-!
# The host

The engine owns neither pools nor prices nor balances; it reaches them through a host. A host is
given by a type `σ` of states and by what each call does to a state. Reading calls are functions
of the state. A call that moves funds leaves a state also when it fails, and that state may
differ from the one before: undoing is the task of `checkpoint` and `restore`, whose snapshots
have a type `κ` of their own.
-/

set_option autoImplicit false

namespace LeveragedLp

/-- A single swap in a pool, as the host resolved it. -/
structure SwapRoute where
  pool : UInt64
  target : Denom
deriving DecidableEq

/-- A liquidity pool as the host lists it. -/
structure PoolListing where
  id : UInt64
  assets : List Denom
  totalShares : Amount
deriving DecidableEq

/-- What the engine needs of the surrounding chain. -/
structure Host (σ κ : Type) where
  /-- The swap from one asset to another, pool shares included, if there is one. -/
  route : σ → Denom → Denom → Option SwapRoute
  /-- What a coin would swap into. -/
  estimateIn : σ → Coin → SwapRoute → Except HostFault Amount
  /-- What would be needed to swap into a coin. -/
  estimateOut : σ → Coin → SwapRoute → Except HostFault Amount
  /-- The value locked in a pool. -/
  poolTvl : σ → UInt64 → Except HostFault Decimal
  poolTotalShares : σ → UInt64 → Except HostFault Amount
  liquidityPools : σ → List PoolListing
  /-- The price of an asset in the base currency. -/
  price : σ → Denom → Except HostFault Decimal
  balance : σ → Address → Denom → Amount
  /-- The asset that the lending facility lends. -/
  lendingDenom : σ → Denom
  /-- The yearly rate of interest, as a fraction. -/
  interestRate : σ → Decimal
  /-- What the lending facility could lend. -/
  available : σ → Amount
  /-- Swaps a coin of an account and credits the account with no less than the least output. -/
  swap : Address → Coin → SwapRoute → Amount → σ → Except HostFault Amount × σ
  /-- Sends a coin from one account to another. -/
  send : Address → Address → Coin → σ → Except HostFault Unit × σ
  /-- Lends the lending asset to an account. -/
  borrow : Address → Amount → σ → Except HostFault Unit × σ
  /-- Takes a repayment from an account. -/
  repay : Address → Amount → σ → Except HostFault Unit × σ
  /-- Takes interest from an account. -/
  payInterest : Address → Amount → σ → Except HostFault Unit × σ
  /-- Forgives a debt that could not be repaid. -/
  writeOff : Amount → σ → Except HostFault Unit × σ
  /-- Hands a loss in a pool to the insurance fund. -/
  absorb : UInt64 → Coin → σ → Except HostFault Unit × σ
  checkpoint : σ → κ × σ
  restore : κ → σ → σ

/-- A computation on a host's state, which may fail and leaves a state either way. -/
def HostM (σ α : Type) : Type := σ → Except Fault α × σ

namespace HostM

variable {σ α β : Type}

/-- A computation in a row goes on from the state that the one before it left, unless that one
failed. -/
instance : Monad (HostM σ) where
  pure a := fun s => (.ok a, s)
  bind x f := fun s =>
    match x s with
    | (.ok a, t) => f a t
    | (.error fault, t) => (.error fault, t)

/-- A fallible value as a computation that leaves the state as it is. -/
def ofExcept (x : Except Fault α) : HostM σ α := fun s => (x, s)

/-- A fallible reading of the state. -/
def reading (f : σ → Except Fault α) : HostM σ α := fun s => (f s, s)

/-- A call of the host that moves funds; its failure becomes a fault of the engine. -/
def moving (movement : Movement) (call : σ → Except HostFault α × σ) : HostM σ α := fun s =>
  match call s with
  | (.ok a, t) => (.ok a, t)
  | (.error fault, t) => (.error (Fault.ofMovement movement fault), t)

@[simp] theorem ofExcept_apply (x : Except Fault α) (s : σ) : ofExcept x s = (x, s) := rfl

@[simp] theorem reading_apply (f : σ → Except Fault α) (s : σ) : reading f s = (f s, s) := rfl

@[simp] theorem pure_apply (a : α) (s : σ) : (pure a : HostM σ α) s = (.ok a, s) := rfl

theorem bind_apply (x : HostM σ α) (f : α → HostM σ β) (s : σ) :
    (x >>= f) s = match x s with
      | (.ok a, t) => f a t
      | (.error fault, t) => (.error fault, t) := rfl

/-- Two computations in a row succeed if the second does where the first has left the state. -/
theorem bind_eq_ok {x : HostM σ α} {f : α → HostM σ β} {s t : σ} {b : β} :
    (x >>= f) s = (.ok b, t) ↔ ∃ a u, x s = (.ok a, u) ∧ f a u = (.ok b, t) := by
  rw [bind_apply]
  rcases x s with ⟨_ | a, u⟩
  · simp
  · simp [and_assoc]

theorem reading_eq_ok {f : σ → Except Fault α} {s t : σ} {a : α} :
    reading f s = (.ok a, t) ↔ f s = .ok a ∧ s = t := by
  rw [reading_apply, Prod.mk.injEq]

theorem ofExcept_eq_ok {x : Except Fault α} {s t : σ} {a : α} :
    (ofExcept x : HostM σ α) s = (.ok a, t) ↔ x = .ok a ∧ s = t := by
  rw [ofExcept_apply, Prod.mk.injEq]

theorem pure_eq_ok {a b : α} {s t : σ} :
    (pure a : HostM σ α) s = (.ok b, t) ↔ a = b ∧ s = t := by
  simp

theorem moving_eq_ok {movement : Movement} {call : σ → Except HostFault α × σ} {s t : σ} {a : α} :
    moving movement call s = (.ok a, t) ↔ call s = (.ok a, t) := by
  unfold moving
  rcases call s with ⟨_ | b, u⟩
  · simp
  · simp

end HostM

namespace Host

variable {σ κ α : Type}

/-- Runs a computation from a checkpoint, to which the host returns if the computation fails. -/
def atomically (h : Host σ κ) (x : HostM σ α) : HostM σ α := fun s =>
  let (snapshot, s₁) := h.checkpoint s
  match x s₁ with
  | (.ok a, s₂) => (.ok a, s₂)
  | (.error fault, s₂) => (.error fault, h.restore snapshot s₂)

theorem atomically_apply (h : Host σ κ) (x : HostM σ α) (s : σ) :
    h.atomically x s = match x (h.checkpoint s).2 with
      | (.ok a, t) => (.ok a, t)
      | (.error fault, t) => (.error fault, h.restore (h.checkpoint s).1 t) := rfl

/-- Atomic or not, a computation succeeds alike. -/
theorem atomically_eq_ok {h : Host σ κ} {x : HostM σ α} {s t : σ} {a : α} :
    h.atomically x s = (.ok a, t) ↔ x (h.checkpoint s).2 = (.ok a, t) := by
  rw [atomically_apply]
  rcases x (h.checkpoint s).2 with ⟨_ | b, u⟩
  · simp
  · exact Iff.rfl

/-- Swaps a coin of the engine's account into an asset, along the route that the host finds. -/
def trade (h : Host σ κ) (coin : Coin) (target : Denom) (least : Amount) : HostM σ Amount := do
  let route ← HostM.reading fun s =>
    orFault (.insufficientLiquidity (.noRoute coin.denom target)) (h.route s coin.denom target)
  HostM.moving .swap (h.swap .engine coin route least)

/-- The total shares of a pool, as the engine reads them. -/
def sharesOf (h : Host σ κ) (pool : UInt64) (s : σ) : Except Fault Amount :=
  (h.poolTotalShares s pool).mapError fun fault => .poolUnavailable pool (.host fault)

end Host

end LeveragedLp

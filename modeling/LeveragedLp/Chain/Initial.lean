import LeveragedLp.Chain.State

/-!
# A chain to begin with

Two users with funds of two assets, a lending facility, and one pool with quotes into and out of
its shares.
-/

set_option autoImplicit false

namespace LeveragedLp

namespace Chain

/-- An asset that swaps at par with the one that is lent. -/
def usdt : Denom := { text := "uusdt" }

/-- The chain before anything happened on it. -/
def initial : Chain where
  lendingDenom := .usdc
  rate := .tenths 10
  availableOverride := none
  balances := .ofList
    [⟨⟨{ text := "elys1alice" }, .usdc⟩, { units := 100000 }⟩,
     ⟨⟨{ text := "elys1alice" }, usdt⟩, { units := 100000 }⟩,
     ⟨⟨{ text := "elys1bob" }, .usdc⟩, { units := 100000 }⟩,
     ⟨⟨{ text := "elys1bob" }, usdt⟩, { units := 100000 }⟩,
     ⟨⟨lender, .usdc⟩, { units := 10000 }⟩]
  prices := .ofList [⟨.usdc, .one⟩, ⟨usdt, .one⟩, ⟨.poolShare 1, .one⟩]
  pools := .ofList
    [⟨1, [.usdc, usdt], { units := 200000 }, .ofUInt64 200000⟩]
  quotes :=
    [⟨.usdc, .poolShare 1, 1, { units := 9768 }, { units := 10000 }, none⟩,
     ⟨.poolShare 1, .usdc, 1, .one, .one, none⟩,
     ⟨usdt, .usdc, 1, .one, .one, none⟩,
     ⟨.usdc, usdt, 1, .one, .one, none⟩]
  outages := []
  outstanding := .zero
  interestReceived := .zero
  writtenOff := .zero
  insurance := []
  checkpoints := 0

end Chain

end LeveragedLp

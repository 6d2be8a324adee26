import LeveragedLp.Amount

/-!
# Denominations and coins

A denomination names an asset. Its text is a letter followed by 2 to 127 letters, digits and
characters of `/:._-`, all of ASCII; `Denom.ofText?` accepts exactly these texts. The shares of
the pool `n` are the asset `amm/pool/n`.
-/

set_option autoImplicit false

namespace LeveragedLp

/-- The characters a denomination may have after its first. -/
def isDenomChar (c : Char) : Bool := c.isAlphanum || "/:._-".toList.contains c

/-- The grammar of denominations. -/
def isDenomText (s : String) : Bool :=
  match s.toList with
  | [] => false
  | c :: rest => c.isAlpha && rest.all isDenomChar && 2 ≤ rest.length && rest.length ≤ 127

/-- The name of an asset. -/
structure Denom where
  text : String
  wellFormed : isDenomText text = true := by decide
deriving DecidableEq

/-- An amount of one asset. -/
structure Coin where
  denom : Denom
  amount : Amount
deriving DecidableEq

namespace Denom

/-- The denomination with the given text, if the text follows the grammar. -/
def ofText? (s : String) : Option Denom :=
  if h : isDenomText s = true then some ⟨s, h⟩ else none

/-- The asset in which values are given where no other is named. -/
def usdc : Denom := { text := "uusdc" }

/-- Denominations are ordered as their texts, by code point. -/
instance : Ord Denom := ⟨fun a b => compare a.text b.text⟩

/-! ## Pool shares -/

/-- The text that names the shares of a pool. -/
def poolShareText (pool : UInt64) : String := "amm/pool/" ++ toString pool.toNat

/-- Digits are letters of the grammar, and a machine word has at most twenty of them. -/
theorem isDenomText_poolShareText (pool : UInt64) : isDenomText (poolShareText pool) = true := by
  have hlen : (Nat.toDigits 10 pool.toNat).length ≤ 20 :=
    (Nat.length_toDigits_le_iff (by decide) (by decide)).2
      (Nat.lt_trans pool.toNat_lt (by decide))
  have hchars : (Nat.toDigits 10 pool.toNat).all isDenomChar = true := by
    refine List.all_eq_true.2 fun c hc => ?_
    have hd : c.isDigit = true := Nat.isDigit_of_mem_toDigits (by decide) (by decide) hc
    simp [isDenomChar, Char.isAlphanum, hd]
  have htext : (poolShareText pool).toList =
      'a' :: (['m', 'm', '/', 'p', 'o', 'o', 'l', '/'] ++ Nat.toDigits 10 pool.toNat) := by
    simp [poolShareText, String.toList_append]
  rw [isDenomText, htext]
  simp only [List.all_append, hchars, List.length_append]
  have hfixed : (['m', 'm', '/', 'p', 'o', 'o', 'l', '/'].all isDenomChar) = true := by decide
  have hfirst : 'a'.isAlpha = true := by decide
  simp only [hfixed, hfirst, List.length_cons, List.length_nil, Bool.and_true, Bool.true_and,
    Bool.and_eq_true, decide_eq_true_eq]
  omega

/-- The asset that the shares of a pool are. -/
def poolShare (pool : UInt64) : Denom where
  text := poolShareText pool
  wellFormed := isDenomText_poolShareText pool

end Denom

namespace Coin

/-- The amount followed by the denomination. -/
def text (c : Coin) : String := c.amount.text ++ c.denom.text

end Coin

end LeveragedLp

import LeveragedLp.Decimal.Arithmetic

/-!
# Amounts

An amount counts the smallest units of an asset; it is a natural number of at most 128 bits.
Sums and differences are checked: they answer `none` where the exact result is no amount.
-/

set_option autoImplicit false

namespace LeveragedLp

/-- A number of smallest units, below `2 ^ 128`. -/
structure Amount where
  units : Nat
  units_lt : units < twoPow 128 := by decide
deriving DecidableEq

namespace Amount

/-- The amount of `n` units, when there is one. -/
def ofNat? (n : Nat) : Option Amount := if h : n < twoPow 128 then some ⟨n, h⟩ else none

theorem ext {a b : Amount} (h : a.units = b.units) : a = b := by
  cases a
  cases b
  cases h
  rfl

theorem ofNat?_eq_some_iff {n : Nat} {a : Amount} : ofNat? n = some a ↔ a.units = n := by
  unfold ofNat?
  split
  · exact ⟨fun h => by cases h; rfl, fun h => congrArg some (ext h.symm)⟩
  · next hn => exact ⟨fun h => (by cases h), fun h => absurd (h ▸ a.units_lt) hn⟩

def zero : Amount := { units := 0 }

def one : Amount := { units := 1 }

/-- The largest amount. -/
def largest : Amount := { units := twoPow 128 - 1 }

instance : Inhabited Amount := ⟨zero⟩

instance : LE Amount := ⟨fun a b => a.units ≤ b.units⟩

instance : LT Amount := ⟨fun a b => a.units < b.units⟩

instance (a b : Amount) : Decidable (a ≤ b) := inferInstanceAs (Decidable (a.units ≤ b.units))

instance (a b : Amount) : Decidable (a < b) := inferInstanceAs (Decidable (a.units < b.units))

theorem le_iff {a b : Amount} : a ≤ b ↔ a.units ≤ b.units := Iff.rfl

def isZero (a : Amount) : Bool := a.units == 0

theorem isZero_iff {a : Amount} : a.isZero = true ↔ a.units = 0 := beq_iff_eq

/-- The decimal digits of the number of units. -/
def text (a : Amount) : String := toString a.units

/-! ## Arithmetic -/

/-- The sum, when it is an amount. -/
def add? (a b : Amount) : Option Amount := ofNat? (a.units + b.units)

/-- The difference, when the second amount is not the larger. -/
def sub? (a b : Amount) : Option Amount := if b ≤ a then ofNat? (a.units - b.units) else none

theorem add?_eq_some_iff {a b c : Amount} : a.add? b = some c ↔ c.units = a.units + b.units :=
  ofNat?_eq_some_iff

theorem sub?_eq_some_iff {a b c : Amount} : a.sub? b = some c ↔ a.units = c.units + b.units := by
  unfold sub?
  split
  · next hle =>
    rw [le_iff] at hle
    rw [ofNat?_eq_some_iff]
    omega
  · next hle =>
    rw [le_iff] at hle
    exact ⟨fun h => (by cases h), fun h => by omega⟩

/-- The sum, or the largest amount where there is none. -/
def saturatingAdd (a b : Amount) : Amount := (add? a b).getD largest

/-- The difference, or zero where there is none. -/
def saturatingSub (a b : Amount) : Amount where
  units := a.units - b.units
  units_lt := Nat.lt_of_le_of_lt (Nat.sub_le _ _) a.units_lt

theorem units_saturatingSub (a b : Amount) :
    (a.saturatingSub b).units = a.units - b.units := rfl

/-- The smaller of two amounts. -/
def least (a b : Amount) : Amount := if a ≤ b then a else b

theorem units_least (a b : Amount) : (a.least b).units = min a.units b.units := by
  unfold least
  split
  · next hle => exact (Nat.min_eq_left (le_iff.1 hle)).symm
  · next hle => exact (Nat.min_eq_right (Nat.le_of_not_le hle)).symm

/-! ## Amounts and decimals -/

/-- An amount as a decimal, when it has at most 96 bits. -/
def toDecimal? (a : Amount) : Option Decimal := Decimal.ofNat? a.units

/-- The whole part of a decimal, its sign disregarded. -/
def ofWhole (d : Decimal) : Amount where
  units := d.whole
  units_lt :=
    Nat.lt_trans (Nat.lt_of_le_of_lt (Nat.div_le_self _ _) d.mantissa_lt) (by decide)

end Amount

end LeveragedLp

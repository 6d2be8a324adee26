import LeveragedLp.Text.Blank

/-!
# Accounts

An address is any text that is not blank. Accounts that belong to a module of the chain, not to
a user, have addresses of the form `module/name`.
-/

set_option autoImplicit false

namespace LeveragedLp

/-- The address of an account. -/
structure Address where
  text : String
  notBlank : Text.isBlank text = false := by decide
deriving DecidableEq

namespace Address

/-- The address with the given text, unless the text is blank. -/
def ofText? (s : String) : Option Address :=
  if h : Text.isBlank s = false then some ⟨s, h⟩ else none

theorem ext {a b : Address} (h : a.text = b.text) : a = b := by
  cases a
  cases b
  cases h
  rfl

/-- Addresses are ordered as their texts, by code point. -/
instance : Ord Address := ⟨fun a b => compare a.text b.text⟩

theorem isBlank_module (name : String) : Text.isBlank ("module/" ++ name) = false := by
  have hm : Text.isBlankChar 'm' = false := by decide
  simp [Text.isBlank, String.toList_append, hm]

/-- The account of the module with the given name. -/
def ofModule (name : String) : Address where
  text := "module/" ++ name
  notBlank := isBlank_module name

/-- The account in which the engine holds custody and borrowed funds. -/
def engine : Address := ofModule "leveragelp"

end Address

end LeveragedLp

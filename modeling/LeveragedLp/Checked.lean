import LeveragedLp.Fault

/-!
# Checked arithmetic and names

The operations of amounts, decimals, denominations and addresses as the engine uses them: where
there is no result they say which quantity has none.
-/

set_option autoImplicit false

namespace LeveragedLp

/-- The value, or the fault if there is none. -/
def orFault {α : Type} (fault : Fault) : Option α → Except Fault α
  | some a => .ok a
  | none => .error fault

@[simp] theorem orFault_some {α : Type} (fault : Fault) (a : α) :
    orFault fault (some a) = .ok a := rfl

@[simp] theorem orFault_none {α : Type} (fault : Fault) :
    orFault fault (none : Option α) = .error fault := rfl

theorem orFault_eq_ok {α : Type} {fault : Fault} {o : Option α} {a : α} :
    orFault fault o = .ok a ↔ o = some a := by
  cases o <;> simp

theorem orFault_eq_error {α : Type} {fault cause : Fault} {o : Option α}
    (h : orFault fault o = .error cause) : cause = fault := by
  cases o with
  | none => exact (Except.error.inj h).symm
  | some a => cases h

/-- Two fallible values in a row are there if the second is, got from the first. -/
theorem except_bind_eq_ok {ε α β : Type} {x : Except ε α} {f : α → Except ε β} {b : β} :
    (x >>= f) = .ok b ↔ ∃ a, x = .ok a ∧ f a = .ok b := by
  cases x with
  | error _ => simp [bind, Except.bind]
  | ok a => simp [bind, Except.bind]

/-- If they are not, the fault is that of the first or of the second. -/
theorem except_bind_eq_error {α β : Type} {x : Except Fault α} {f : α → Except Fault β}
    {fault : Fault} :
    (x >>= f) = .error fault ↔ x = .error fault ∨ ∃ a, x = .ok a ∧ f a = .error fault := by
  cases x with
  | error _ => simp [bind, Except.bind]
  | ok a => simp [bind, Except.bind]

theorem except_map_eq_ok {α β : Type} {x : Except Fault α} {f : α → β} {b : β} :
    x.map f = .ok b ↔ ∃ a, x = .ok a ∧ f a = b := by
  cases x with
  | error _ => simp [Except.map]
  | ok a => simp [Except.map]

/-- What comes after a refusal is there if the refusal does not apply. -/
theorem refuse_bind_eq_ok {β : Type} {c : Prop} [Decidable c] {fault : Fault}
    {f : PUnit → Except Fault β} {b : β} :
    (if c then (throw fault : Except Fault PUnit) >>= f else f ⟨⟩) = .ok b ↔
      ¬ c ∧ f ⟨⟩ = .ok b := by
  by_cases hc : c
  · simp [hc, throw, throwThe, MonadExceptOf.throw, bind, Except.bind]
  · simp [hc]

namespace Amount

/-- The sum; `quantity` names it if it overflows. -/
def add (a b : Amount) (quantity : String) : Except Fault Amount :=
  orFault (.overflow quantity) (a.add? b)

/-- The difference; `quantity` names it if it would be negative. -/
def sub (a b : Amount) (quantity : String) : Except Fault Amount :=
  orFault (.overflow quantity) (a.sub? b)

theorem add_eq_ok {a b c : Amount} {quantity : String} :
    a.add b quantity = .ok c ↔ c.units = a.units + b.units := by
  rw [add, orFault_eq_ok, add?_eq_some_iff]

/-- There is no sum where it is too large, and the fault names what was added up. -/
theorem add_eq_error {a b : Amount} {quantity : String} {fault : Fault} :
    a.add b quantity = .error fault ↔
      twoPow 128 ≤ a.units + b.units ∧ fault = .overflow quantity := by
  unfold add add? ofNat?
  split
  · next hlt =>
    constructor
    · intro h
      cases h
    · rintro ⟨hle, -⟩
      exact absurd hlt (Nat.not_lt.2 hle)
  · next hlt =>
    constructor
    · intro h
      cases h
      exact ⟨Nat.le_of_not_lt hlt, rfl⟩
    · rintro ⟨-, rfl⟩
      rfl

theorem sub_eq_ok {a b c : Amount} {quantity : String} :
    a.sub b quantity = .ok c ↔ a.units = c.units + b.units := by
  rw [sub, orFault_eq_ok, sub?_eq_some_iff]

protected theorem add_zero (a : Amount) (quantity : String) : a.add .zero quantity = .ok a :=
  add_eq_ok.2 rfl

protected theorem zero_add (a : Amount) (quantity : String) : zero.add a quantity = .ok a :=
  add_eq_ok.2 (Nat.zero_add _).symm

protected theorem sub_zero (a : Amount) (quantity : String) : a.sub .zero quantity = .ok a :=
  sub_eq_ok.2 rfl

/-- The smaller of two amounts can be taken off the first. -/
theorem sub_least_left (a b : Amount) (quantity : String) :
    a.sub (a.least b) quantity = .ok (a.saturatingSub b) := by
  have hleast := units_least a b
  apply sub_eq_ok.2
  rw [units_saturatingSub]
  omega

/-- And off the second. -/
theorem sub_least_right (a b : Amount) (quantity : String) :
    b.sub (a.least b) quantity = .ok (b.saturatingSub a) := by
  have hleast := units_least a b
  apply sub_eq_ok.2
  rw [units_saturatingSub]
  omega

def toDecimal (a : Amount) : Except Fault Decimal :=
  orFault (.overflow "amount exceeds decimal range") a.toDecimal?

/-- A non-negative decimal as an amount, its fraction dropped. -/
def ofDecimal (d : Decimal) : Except Fault Amount :=
  if d.negative && !d.isZero then .error (.overflow "negative amount") else .ok (ofWhole d)

/-- The product with a decimal, rounded as decimals are, its fraction then dropped. -/
def times (a : Amount) (factor : Decimal) : Except Fault Amount := do
  let d ← a.toDecimal
  let product ← orFault (.overflow "amount multiplication") (d.mul? factor)
  ofDecimal product

/-- The quotient of two amounts as a decimal. -/
def ratio (a b : Amount) : Except Fault Decimal := do
  if b.isZero then throw (.overflow "division by zero")
  let num ← a.toDecimal
  let den ← b.toDecimal
  orFault (.overflow "ratio") (num.div? den)

end Amount

/-- The denomination with the given text, or the fault that shows the text. -/
def Denom.ofText (s : String) : Except Fault Denom :=
  orFault (.invalidAsset (.malformed s)) (Denom.ofText? s)

/-- The address with the given text, or the fault that shows the text. -/
def Address.ofText (s : String) : Except Fault Address :=
  orFault (.invalidAddress s) (Address.ofText? s)

end LeveragedLp

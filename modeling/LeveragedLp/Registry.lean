/-!
# Registries

A registry files records under a key that each record carries itself, at most one record to a
key, and lists them in ascending order of their keys. The records in order, `Registry.toList`,
are all there is to see of a registry; every operation is described by what it does to them.
-/

set_option autoImplicit false

namespace LeveragedLp

/-- Records that carry the key they are filed under. -/
class Keyed (α : Type) (κ : outParam Type) where
  key : α → κ

section

open Keyed (key)

variable {α κ : Type} [Keyed α κ] [Ord κ]

/-- The order of a registry: the key of `a` comes before the key of `b`. -/
def Registry.Before (a b : α) : Prop := compare (key a) (key b) = .lt

/-- Records in ascending order of their keys. -/
structure Registry (α : Type) {κ : Type} [Keyed α κ] [Ord κ] where
  toList : List α
  ascending : toList.Pairwise Registry.Before

instance [DecidableEq α] : DecidableEq (Registry α) := fun a b =>
  decidable_of_iff (a.toList = b.toList)
    ⟨fun h => by cases a; cases b; cases h; rfl, fun h => h ▸ rfl⟩

namespace Registry

/-- The list with `x` at its place, in the place of a record with the same key. -/
def place (x : α) : List α → List α
  | [] => [x]
  | y :: ys =>
    match compare (key x) (key y) with
    | .lt => x :: y :: ys
    | .eq => x :: ys
    | .gt => y :: place x ys

/-- A registry is its records in order. -/
theorem ext {r t : Registry α} (h : r.toList = t.toList) : r = t := by
  cases r
  cases t
  cases h
  rfl

/-- The registry without records. -/
def empty : Registry α := ⟨[], List.Pairwise.nil⟩

instance : Inhabited (Registry α) := ⟨empty⟩

/-- The record under a key. -/
def get? (r : Registry α) (k : κ) : Option α := r.toList.find? fun x => compare (key x) k == .eq

/-- Whether there is a record under a key. -/
def contains (r : Registry α) (k : κ) : Bool := (r.get? k).isSome

/-- The registry without the record under a key. -/
def erase (r : Registry α) (k : κ) : Registry α :=
  ⟨r.toList.filter fun x => compare (key x) k != .eq, r.ascending.filter _⟩

/-- The keys, ascending. -/
def keys (r : Registry α) : List κ := r.toList.map key

/-- The number of records. -/
def size (r : Registry α) : Nat := r.toList.length

/-- The records from the key `first` on for as long as a condition on them holds. -/
def run (r : Registry α) (first : κ) (holds : α → Bool) : List α :=
  (r.toList.dropWhile fun x => compare (key x) first == .lt).takeWhile holds

/-! ## Looking a record up -/

variable [Std.LawfulEqOrd κ]

theorem mem_toList_erase {r : Registry α} {k : κ} {x : α} :
    x ∈ (r.erase k).toList ↔ x ∈ r.toList ∧ key x ≠ k := by
  simp [erase, bne_iff_ne, Std.LawfulEqCmp.compare_eq_iff_eq]

theorem Before.key_ne {x y : α} (h : Before x y) : key x ≠ key y := by
  intro hk
  have hself : compare (key y) (key y) = .eq := Std.ReflCmp.compare_self
  rw [Before, hk, hself] at h
  cases h

theorem find?_of_mem {x : α} {ys : List α} (hys : ys.Pairwise Before) (hx : x ∈ ys) :
    (ys.find? fun y => compare (key y) (key x) == .eq) = some x := by
  induction ys with
  | nil => cases hx
  | cons y ys ih =>
      have hy := List.pairwise_cons.1 hys
      rcases List.mem_cons.1 hx with rfl | hx
      · simp
      · have hne : compare (key y) (key x) ≠ .eq := by
          intro heq
          exact (hy.1 x hx).key_ne (Std.LawfulEqOrd.eq_of_compare heq)
        simp [hne, ih hy.2 hx]

/-- Looking up finds the record of the list that has the key. -/
theorem get?_eq_some_iff {r : Registry α} {k : κ} {x : α} :
    r.get? k = some x ↔ x ∈ r.toList ∧ key x = k := by
  constructor
  · intro h
    have hk := List.find?_some h
    exact ⟨List.mem_of_find?_eq_some h, Std.LawfulEqOrd.eq_of_compare (by simpa using hk)⟩
  · rintro ⟨hx, rfl⟩
    exact find?_of_mem r.ascending hx

theorem get?_erase_self (r : Registry α) (k : κ) : (r.erase k).get? k = none := by
  refine Option.eq_none_iff_forall_ne_some.2 fun x hx => ?_
  obtain ⟨hmem, hk⟩ := get?_eq_some_iff.1 hx
  exact (mem_toList_erase.1 hmem).2 hk

theorem get?_erase_of_ne {r : Registry α} {k l : κ} (h : l ≠ k) :
    (r.erase k).get? l = r.get? l := by
  refine Option.ext fun x => ?_
  rw [get?_eq_some_iff, get?_eq_some_iff, mem_toList_erase]
  constructor
  · rintro ⟨⟨hx, -⟩, hl⟩
    exact ⟨hx, hl⟩
  · rintro ⟨hx, rfl⟩
    exact ⟨⟨hx, h⟩, rfl⟩

/-! ## Filing a record -/

variable [Std.TransOrd κ]

theorem mem_place_iff {x z : α} {ys : List α} (h : ys.Pairwise Before) :
    z ∈ place x ys ↔ z = x ∨ (z ∈ ys ∧ key z ≠ key x) := by
  induction ys with
  | nil => simp [place]
  | cons y ys ih =>
      have hy := List.pairwise_cons.1 h
      unfold place
      split
      · next hlt =>
        have hne : ∀ w ∈ y :: ys, key w ≠ key x := by
          intro w hw
          rcases List.mem_cons.1 hw with rfl | hw
          · exact (Before.key_ne hlt).symm
          · exact (Before.key_ne (Std.TransCmp.lt_trans hlt (hy.1 w hw))).symm
        rw [List.mem_cons]
        exact or_congr_right ⟨fun hz => ⟨hz, hne z hz⟩, And.left⟩
      · next heq =>
        have hk : key x = key y := Std.LawfulEqOrd.eq_of_compare heq
        rw [List.mem_cons, List.mem_cons]
        constructor
        · rintro (rfl | hz)
          · exact .inl rfl
          · exact .inr ⟨.inr hz, fun hzx => (hy.1 z hz).key_ne (hzx.trans hk).symm⟩
        · rintro (rfl | ⟨rfl | hz, hne⟩)
          · exact .inl rfl
          · exact absurd hk.symm hne
          · exact .inr hz
      · next hgt =>
        have hyx : Before y x := Std.OrientedCmp.gt_iff_lt.1 hgt
        rw [List.mem_cons, List.mem_cons, ih hy.2]
        constructor
        · rintro (rfl | rfl | hz)
          · exact .inr ⟨.inl rfl, hyx.key_ne⟩
          · exact .inl rfl
          · exact .inr ⟨.inr hz.1, hz.2⟩
        · rintro (rfl | ⟨rfl | hz, hne⟩)
          · exact .inr (.inl rfl)
          · exact .inl rfl
          · exact .inr (.inr ⟨hz, hne⟩)

theorem pairwise_place (x : α) {ys : List α} (h : ys.Pairwise Before) :
    (place x ys).Pairwise Before := by
  induction ys with
  | nil => exact List.pairwise_singleton _ _
  | cons y ys ih =>
      have hy := List.pairwise_cons.1 h
      unfold place
      split
      · next hlt =>
        refine List.pairwise_cons.2 ⟨fun z hz => ?_, h⟩
        rcases List.mem_cons.1 hz with rfl | hz
        · exact hlt
        · exact Std.TransCmp.lt_trans hlt (hy.1 z hz)
      · next heq =>
        have hk : key x = key y := Std.LawfulEqOrd.eq_of_compare heq
        refine List.pairwise_cons.2 ⟨fun z hz => ?_, hy.2⟩
        have := hy.1 z hz
        rwa [Before, ← hk] at this
      · next hgt =>
        refine List.pairwise_cons.2 ⟨fun z hz => ?_, ih hy.2⟩
        rcases (mem_place_iff hy.2).1 hz with rfl | hz
        · exact Std.OrientedCmp.gt_iff_lt.1 hgt
        · exact hy.1 z hz.1

/-- The registry with a record filed, in the place of one under the same key. -/
def insert (r : Registry α) (x : α) : Registry α := ⟨place x r.toList, pairwise_place x r.ascending⟩

/-- Filing a record replaces the one with its key and leaves the others. -/
theorem mem_toList_insert {r : Registry α} {x z : α} :
    z ∈ (r.insert x).toList ↔ z = x ∨ (z ∈ r.toList ∧ key z ≠ key x) :=
  mem_place_iff r.ascending

theorem get?_insert_self (r : Registry α) (x : α) : (r.insert x).get? (key x) = some x :=
  get?_eq_some_iff.2 ⟨mem_toList_insert.2 (.inl rfl), rfl⟩

theorem get?_insert_of_ne {r : Registry α} {x : α} {k : κ} (h : k ≠ key x) :
    (r.insert x).get? k = r.get? k := by
  refine Option.ext fun z => ?_
  rw [get?_eq_some_iff, get?_eq_some_iff, mem_toList_insert]
  constructor
  · rintro ⟨rfl | hz, rfl⟩
    · exact absurd rfl h
    · exact ⟨hz.1, rfl⟩
  · rintro ⟨hz, rfl⟩
    exact ⟨.inr ⟨hz, h⟩, rfl⟩

/-- The records filed from a list, a later one in the place of an earlier. -/
def ofList (xs : List α) : Registry α := xs.foldl insert empty

end Registry

end

end LeveragedLp

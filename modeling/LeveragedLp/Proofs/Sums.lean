import LeveragedLp.Book
import Mathlib

/-!
# Sums over a registry

Totals of the book are sums over its positions. Here is what filing and removing a record do to
such a sum: a record under a new key adds its share, one under a key in use replaces the share of
the record that was there, and a removed record takes its share away. All three follow from one
fact, that a registry is determined by what is in it (`Registry.ext_mem`), in any order.
-/

set_option autoImplicit false

namespace LeveragedLp

namespace Registry

open Keyed (key)

variable {α κ M : Type} [Keyed α κ] [Ord κ] [Std.LawfulEqOrd κ]
variable {r t : Registry α} {k : κ} {x y : α}

theorem nodup (r : Registry α) : r.toList.Nodup :=
  r.ascending.imp fun hab heq => hab.key_ne (congrArg key heq)

theorem mem_toList_of_get? (h : r.get? k = some x) : x ∈ r.toList := (get?_eq_some_iff.1 h).1

theorem key_of_get? (h : r.get? k = some x) : key x = k := (get?_eq_some_iff.1 h).2

theorem get?_key (hx : x ∈ r.toList) : r.get? (key x) = some x := get?_eq_some_iff.2 ⟨hx, rfl⟩

theorem get?_eq_none_iff : r.get? k = none ↔ ∀ x ∈ r.toList, key x ≠ k := by
  constructor
  · intro h x hx hk
    rw [← hk, get?_key hx] at h
    cases h
  · intro h
    refine Option.eq_none_iff_forall_ne_some.2 fun x hx => ?_
    exact h x (mem_toList_of_get? hx) (key_of_get? hx)

/-- A registry holds the record under a key and the records left without it. -/
theorem perm_of_get? (h : r.get? k = some x) : r.toList.Perm (x :: (r.erase k).toList) := by
  -- neither list has a record twice, so it is enough that they have the same records
  have hx : x ∉ (r.erase k).toList := fun h' => (mem_toList_erase.1 h').2 (key_of_get? h)
  refine (List.perm_ext_iff_of_nodup (nodup _) (List.nodup_cons.2 ⟨hx, nodup _⟩)).2 fun z => ?_
  rw [List.mem_cons, mem_toList_erase]
  constructor
  · intro hz
    by_cases hk : key z = k
    · subst hk
      exact .inl (Option.some.inj ((get?_key hz).symm.trans h))
    · exact .inr ⟨hz, hk⟩
  · rintro (rfl | ⟨hz, -⟩)
    · exact mem_toList_of_get? h
    · exact hz

variable [Std.TransOrd κ]

/-- Two registries with the same records are the same. -/
theorem ext_mem (hmem : ∀ x, x ∈ r.toList ↔ x ∈ t.toList) : r = t := by
  -- the lists are permutations of each other, and both are in order
  have hperm : r.toList.Perm t.toList := (List.perm_ext_iff_of_nodup r.nodup t.nodup).2 hmem
  refine ext (hperm.eq_of_pairwise (fun a b _ _ hab hba => ?_) r.ascending t.ascending)
  exact absurd rfl (Before.key_ne (Std.TransCmp.lt_trans hab hba))

/-- Of two records filed under one key the later stays. -/
theorem insert_insert (hkey : key x = key y) : (r.insert x).insert y = r.insert y := by
  refine ext_mem fun z => ?_
  rw [mem_toList_insert, mem_toList_insert, mem_toList_insert]
  constructor
  · rintro (rfl | ⟨rfl | ⟨hz, -⟩, hne⟩)
    · exact .inl rfl
    · exact absurd hkey hne
    · exact .inr ⟨hz, hne⟩
  · rintro (rfl | ⟨hz, hne⟩)
    · exact .inl rfl
    · exact .inr ⟨.inr ⟨hz, hkey ▸ hne⟩, hne⟩

/-- A registry with a record filed holds that record and, of the old ones, those with other
keys. -/
theorem insert_perm : (r.insert x).toList.Perm (x :: (r.erase (key x)).toList) := by
  have hx : x ∉ (r.erase (key x)).toList := fun h => (mem_toList_erase.1 h).2 rfl
  refine (List.perm_ext_iff_of_nodup (nodup _) (List.nodup_cons.2 ⟨hx, nodup _⟩)).2 fun z => ?_
  rw [mem_toList_insert, List.mem_cons, mem_toList_erase]

theorem erase_of_get?_eq_none (h : r.get? k = none) : r.erase k = r := by
  refine ext_mem fun z => ?_
  rw [mem_toList_erase]
  exact ⟨And.left, fun hz => ⟨hz, get?_eq_none_iff.1 h z hz⟩⟩

/-! ## The sums -/

variable [AddCommMonoid M]

/-- What the records contribute, summed up. -/
def sum (r : Registry α) (f : α → M) : M := (r.toList.map f).sum

variable (f : α → M)

theorem sum_insert : (r.insert x).sum f = f x + (r.erase (key x)).sum f := by
  rw [sum, sum, ← List.sum_cons, ← List.map_cons]
  exact (insert_perm.map f).sum_eq

omit [Std.TransOrd κ] in
theorem sum_of_get? (h : r.get? k = some x) : r.sum f = f x + (r.erase k).sum f := by
  rw [sum, sum, ← List.sum_cons, ← List.map_cons]
  exact ((perm_of_get? h).map f).sum_eq

/-- A record under a new key adds its share. -/
theorem sum_insert_new (h : r.get? (key x) = none) : (r.insert x).sum f = f x + r.sum f := by
  rw [sum_insert, erase_of_get?_eq_none h]

/-- A record under a key in use takes the place of the old one's share. -/
theorem sum_insert_old (h : r.get? (key x) = some y) :
    f y + (r.insert x).sum f = f x + r.sum f := by
  rw [sum_insert, sum_of_get? f h, add_left_comm]

end Registry

end LeveragedLp

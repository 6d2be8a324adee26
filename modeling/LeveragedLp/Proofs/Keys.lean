import LeveragedLp.Proofs.Sums

/-!
# The keys of a registry

The keys of a registry ascend, so they are known as soon as it is known which keys are in use
(`Ascending.ext`). Filing a record under a key in use leaves the keys as they are, and filing one
under a new key only adds to them.
-/

set_option autoImplicit false

namespace LeveragedLp

/-- Keys in strictly ascending order. -/
def Ascending {κ : Type} [Ord κ] (ks : List κ) : Prop := ks.Pairwise fun k l => compare k l = .lt

namespace Ascending

variable {κ : Type} [Ord κ] {ks ls : List κ}

theorem sublist (h : Ascending ks) (hsub : ls.Sublist ks) : Ascending ls :=
  List.Pairwise.sublist hsub h

variable [Std.LawfulEqOrd κ]

theorem nodup (h : Ascending ks) : ks.Nodup := by
  refine h.imp fun {k l} hlt heq => ?_
  have hself : compare l l = .eq := Std.ReflCmp.compare_self
  rw [heq, hself] at hlt
  cases hlt

/-- Ascending keys are determined by which keys they are. -/
theorem ext [Std.TransOrd κ] (hks : Ascending ks) (hls : Ascending ls)
    (hmem : ∀ k, k ∈ ks ↔ k ∈ ls) : ks = ls := by
  have hperm : ks.Perm ls := (List.perm_ext_iff_of_nodup hks.nodup hls.nodup).2 hmem
  refine hperm.eq_of_pairwise (fun k l _ _ hkl hlk => ?_) hks hls
  -- no key comes before another one and after it
  have hlt : compare k k = .lt := Std.TransCmp.lt_trans hkl hlk
  have hself : compare k k = .eq := Std.ReflCmp.compare_self
  rw [hself] at hlt
  cases hlt

end Ascending

namespace Registry

open Keyed (key)

variable {α κ : Type} [Keyed α κ] [Ord κ] {r : Registry α} {k : κ} {x : α}

theorem keys_ascending (r : Registry α) : Ascending r.keys := by
  unfold Ascending keys
  rw [List.pairwise_map]
  exact r.ascending

theorem length_place_le (x : α) (ys : List α) : (place x ys).length ≤ ys.length + 1 := by
  induction ys with
  | nil => exact Nat.le_refl 1
  | cons y ys ih =>
      unfold place
      split
      · exact Nat.le_refl _
      · exact Nat.le_succ _
      · exact Nat.succ_le_succ ih

variable [Std.LawfulEqOrd κ]

theorem mem_keys : k ∈ r.keys ↔ (r.get? k).isSome := by
  unfold keys
  rw [List.mem_map, Option.isSome_iff_exists]
  constructor
  · rintro ⟨x, hx, rfl⟩
    exact ⟨x, get?_key hx⟩
  · rintro ⟨x, hx⟩
    exact ⟨x, mem_toList_of_get? hx, key_of_get? hx⟩

theorem mem_keys_erase {l : κ} : k ∈ (r.erase l).keys ↔ k ≠ l ∧ k ∈ r.keys := by
  unfold keys
  rw [List.mem_map, List.mem_map]
  constructor
  · rintro ⟨x, hx, rfl⟩
    obtain ⟨hold, hne⟩ := mem_toList_erase.1 hx
    exact ⟨hne, x, hold, rfl⟩
  · rintro ⟨hne, x, hx, rfl⟩
    exact ⟨x, mem_toList_erase.2 ⟨hx, hne⟩, rfl⟩

variable [Std.TransOrd κ]

theorem mem_keys_insert : k ∈ (r.insert x).keys ↔ k = key x ∨ k ∈ r.keys := by
  unfold keys
  rw [List.mem_map, List.mem_map]
  have hfiled : x ∈ (r.insert x).toList := mem_toList_insert.2 (.inl rfl)
  constructor
  · rintro ⟨y, hy, rfl⟩
    rcases mem_toList_insert.1 hy with rfl | ⟨hold, -⟩
    · exact .inl rfl
    · exact .inr ⟨y, hold, rfl⟩
  · rintro (rfl | ⟨y, hy, rfl⟩)
    · exact ⟨x, hfiled, rfl⟩
    · -- a record may have been replaced, but its key is still in use
      by_cases hkey : key y = key x
      · exact ⟨x, hfiled, hkey.symm⟩
      · exact ⟨y, mem_toList_insert.2 (.inr ⟨hy, hkey⟩), rfl⟩

/-- Filing a record does not take a key out of use. -/
theorem isSome_insert (h : (r.get? k).isSome) : ((r.insert x).get? k).isSome :=
  mem_keys.1 (mem_keys_insert.2 (.inr (mem_keys.2 h)))

/-- A record filed under a key in use leaves the keys as they are. -/
theorem keys_insert (h : (r.get? (key x)).isSome) : (r.insert x).keys = r.keys := by
  refine (keys_ascending _).ext (keys_ascending _) fun k => ?_
  rw [mem_keys_insert]
  constructor
  · rintro (rfl | hk)
    · exact mem_keys.2 h
    · exact hk
  · exact .inr

/-- Filing a record adds one at most. -/
theorem size_insert_le (r : Registry α) (x : α) : (r.insert x).size ≤ r.size + 1 :=
  length_place_le x r.toList

end Registry

end LeveragedLp

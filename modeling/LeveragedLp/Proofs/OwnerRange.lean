import LeveragedLp.Proofs.Keys

/-!
# The positions of one owner

Positions are filed by owner first and by number second, so the positions of one owner stand
together in the book, and no key of that owner comes before the one with the number zero. To read
from that key on for as long as the owner is the same is therefore to pick the owner's positions out
of all of them (`Book.positionsOf_eq_filter`), whatever other owners there are: it stops neither
early nor late.

For registries in general this needs two facts of a condition, that it holds of no record below the
key at which the reading begins, and that from there on it does not begin to hold again once it has
ceased to (`Registry.run_eq_filter`). What a book holds after filings and removals is the last
record filed under each key and not removed since (`Book.position?_edited`).
-/

set_option autoImplicit false

namespace LeveragedLp

/-! ## Runs of a registry -/

namespace Registry

open Keyed (key)

variable {α κ : Type} [Keyed α κ] [Ord κ] {first : κ} {holds : α → Bool} {xs : List α}

theorem takeWhile_eq_filter
    (hgap : ∀ x y : α, compare (key x) first ≠ .lt → Before x y → holds y = true → holds x = true)
    (hxs : xs.Pairwise Before) (hfrom : ∀ x ∈ xs, compare (key x) first ≠ .lt) :
    xs.takeWhile holds = xs.filter holds := by
  induction xs with
  | nil => rfl
  | cons x xs ih =>
      obtain ⟨hx, hxs⟩ := List.pairwise_cons.1 hxs
      obtain ⟨hfirst, hfrom⟩ := List.forall_mem_cons.1 hfrom
      by_cases hholds : holds x = true
      · rw [List.takeWhile_cons_of_pos hholds, List.filter_cons_of_pos hholds, ih hxs hfrom]
      · -- the condition has ceased to hold, so it holds of nothing behind either
        rw [List.takeWhile_cons_of_neg hholds, List.filter_cons_of_neg hholds]
        refine (List.filter_eq_nil_iff.2 fun y hy hagain => ?_).symm
        exact hholds (hgap x y hfirst (hx y hy) hagain)

/-- Nothing that is passed over on the way to the first key satisfies the condition. -/
theorem takeWhile_dropWhile_eq_filter [Std.TransOrd κ]
    (hbelow : ∀ x : α, holds x = true → compare (key x) first ≠ .lt)
    (hgap : ∀ x y : α, compare (key x) first ≠ .lt → Before x y → holds y = true → holds x = true)
    (hxs : xs.Pairwise Before) :
    (xs.dropWhile fun x => compare (key x) first == .lt).takeWhile holds = xs.filter holds := by
  induction xs with
  | nil => rfl
  | cons x xs ih =>
      obtain ⟨hx, htail⟩ := List.pairwise_cons.1 hxs
      by_cases hlt : compare (key x) first = .lt
      · have hskipped : ¬ holds x = true := fun hholds => hbelow x hholds hlt
        rw [List.dropWhile_cons_of_pos (by simp [hlt]), List.filter_cons_of_neg hskipped, ih htail]
      · rw [List.dropWhile_cons_of_neg (by simp [hlt])]
        refine takeWhile_eq_filter hgap hxs (List.forall_mem_cons.2 ⟨hlt, fun y hy hlow => ?_⟩)
        -- the keys ascend, so none behind `x` is below the first again
        exact hlt (Std.TransCmp.lt_trans (hx y hy) hlow)

/-- A run has all records that satisfy its condition, if none of them is below the key at which it
begins and no other record from that key on stands before one of them. -/
theorem run_eq_filter [Std.TransOrd κ] (r : Registry α)
    (hbelow : ∀ x : α, holds x = true → compare (key x) first ≠ .lt)
    (hgap : ∀ x y : α, compare (key x) first ≠ .lt → Before x y → holds y = true →
      holds x = true) :
    r.run first holds = r.toList.filter holds :=
  takeWhile_dropWhile_eq_filter hbelow hgap r.ascending

end Registry

/-! ## The order of the keys -/

namespace PositionKey

/-- The owners decide, and between keys of one owner the numbers. -/
theorem compare_eq_lt {k l : PositionKey} :
    compare k l = .lt ↔
      compare k.owner.text l.owner.text = .lt ∨ k.owner = l.owner ∧ k.id < l.id := by
  have hthen : compare k l =
      (compare k.owner.text l.owner.text).then (compare k.id l.id) := rfl
  have howner : compare k.owner.text l.owner.text = .eq ↔ k.owner = l.owner := by
    rw [Std.LawfulEqOrd.compare_eq_iff_eq]
    exact ⟨Address.ext, congrArg Address.text⟩
  have hid : compare k.id l.id = .lt ↔ k.id < l.id := Std.compare_eq_lt
  rw [hthen, Ordering.then_eq_lt, howner, hid]

/-- No number is below zero, so the key with the number zero is the first of its owner. -/
theorem compare_zero_eq_lt {k : PositionKey} {owner : Address} :
    compare k ⟨owner, 0⟩ = .lt ↔ compare k.owner.text owner.text = .lt := by
  rw [compare_eq_lt]
  exact or_iff_left fun hid => UInt64.not_lt_zero hid.2

end PositionKey

namespace Book

open Registry (Before)

variable {b : Book} {owner : Address} {k : PositionKey} {p q : Position}

theorem before_iff :
    Before p q ↔ compare p.owner.text q.owner.text = .lt ∨ p.owner = q.owner ∧ p.id < q.id :=
  PositionKey.compare_eq_lt

/-! ## Reading one owner's positions -/

/-- **To read one owner's run is to pick out the owner's positions.** -/
theorem positionsOf_eq_filter (b : Book) (owner : Address) :
    b.positionsOf owner = b.positions.toList.filter fun p => p.owner == owner := by
  have hself : compare owner.text owner.text = .eq := Std.ReflCmp.compare_self
  refine b.positions.run_eq_filter (fun p hp hlt => ?_) fun p q hfrom hbefore hq => ?_
  · have howner : p.owner = owner := beq_iff_eq.1 hp
    have hlow : compare p.owner.text owner.text = .lt := PositionKey.compare_zero_eq_lt.1 hlt
    rw [howner, hself] at hlow
    cases hlow
  · -- what stands before a position of the owner is of the owner or of one with a lesser text
    have howner : q.owner = owner := beq_iff_eq.1 hq
    rcases before_iff.1 hbefore with hlt | ⟨hsame, -⟩
    · rw [howner] at hlt
      exact absurd (PositionKey.compare_zero_eq_lt.2 hlt) hfrom
    · exact beq_iff_eq.2 (hsame.trans howner)

/-- What is read for one owner: the owner's records among all of the book and no others, each once,
by ascending number. -/
structure ReadsOwner (b : Book) (owner : Address) : Prop where
  filtered : b.positionsOf owner = b.positions.toList.filter fun p => p.owner == owner
  mem_iff : ∀ p, p ∈ b.positionsOf owner ↔ p ∈ b.positions.toList ∧ p.owner = owner
  once : (b.positionsOf owner).Nodup
  ascending : (b.positionsOf owner).Pairwise fun p q => p.id < q.id

theorem readsOwner (b : Book) (owner : Address) : b.ReadsOwner owner := by
  have hfiltered := b.positionsOf_eq_filter owner
  have hmem : ∀ p, p ∈ b.positionsOf owner ↔ p ∈ b.positions.toList ∧ p.owner = owner := by
    intro p
    rw [hfiltered, List.mem_filter, beq_iff_eq]
  refine ⟨hfiltered, hmem, ?_, ?_⟩
  · rw [hfiltered]
    exact b.positions.nodup.filter _
  · have hordered : (b.positionsOf owner).Pairwise Before := by
      rw [hfiltered]
      exact b.positions.ascending.filter _
    refine hordered.imp_of_mem fun {p q} hp hq hbefore => ?_
    -- both are the owner's, so it is the numbers that put them in order
    have hsame : p.owner = q.owner := ((hmem p).1 hp).2.trans ((hmem q).1 hq).2.symm
    rcases before_iff.1 hbefore with hlt | ⟨-, hid⟩
    · have hself : compare q.owner.text q.owner.text = .eq := Std.ReflCmp.compare_self
      rw [hsame, hself] at hlt
      cases hlt
    · exact hid

/-! ## Books made by filing and removing -/

/-- Something done to the positions of a book. -/
inductive Edit where
  | put (p : Position)
  | remove (k : PositionKey)

/-- The book after it is done. -/
def edit (b : Book) : Edit → Book
  | .put p => b.put p
  | .remove k => b.remove k

/-- The book after edits in turn. -/
def edited (b : Book) (edits : List Edit) : Book := edits.foldl edit b

/-- What an edit leaves under a key where a record, or none, was found. -/
def Edit.leaves (k : PositionKey) (found : Option Position) : Edit → Option Position
  | .put p => if p.key = k then some p else found
  | .remove l => if l = k then none else found

/-- The record that was filed last under a key, unless it was removed since. -/
def Edit.last? (k : PositionKey) (edits : List Edit) : Option Position :=
  edits.foldl (Edit.leaves k) none

theorem position?_edit (b : Book) (x : Edit) (k : PositionKey) :
    (b.edit x).position? k = x.leaves k (b.position? k) := by
  cases x with
  | put p =>
      show (b.positions.insert p).get? k = if p.key = k then some p else b.positions.get? k
      by_cases hkey : p.key = k
      · rw [if_pos hkey, ← hkey]
        exact Registry.get?_insert_self b.positions p
      · rw [if_neg hkey]
        exact Registry.get?_insert_of_ne (Ne.symm hkey)
  | remove l =>
      show (b.positions.erase l).get? k = if l = k then none else b.positions.get? k
      by_cases hkey : l = k
      · rw [if_pos hkey, hkey]
        exact Registry.get?_erase_self b.positions k
      · rw [if_neg hkey]
        exact Registry.get?_erase_of_ne (Ne.symm hkey)

/-- Edits leave under a key what they leave one by one. -/
theorem position?_edited (b : Book) (edits : List Edit) (k : PositionKey) :
    (b.edited edits).position? k = edits.foldl (Edit.leaves k) (b.position? k) := by
  induction edits generalizing b with
  | nil => rfl
  | cons x edits ih =>
      show ((b.edit x).edited edits).position? k = edits.foldl _ (x.leaves k (b.position? k))
      rw [ih, position?_edit]

/-- **What is read for an owner is what was filed for the owner and not removed.** After any filings
and removals, the read of an owner's run gives the owner's records among all positions, each once
and by ascending number, and these are the records filed last under the owner's keys. -/
theorem owner_range_is_exact (edits : List Edit) (owner : Address) :
    (empty.edited edits).ReadsOwner owner ∧
      ∀ p, p ∈ (empty.edited edits).positionsOf owner ↔
        p.owner = owner ∧ Edit.last? p.key edits = some p := by
  have hreads := (empty.edited edits).readsOwner owner
  refine ⟨hreads, fun p => ?_⟩
  have hlast : (empty.edited edits).position? p.key = Edit.last? p.key edits :=
    position?_edited empty edits p.key
  have hfiled : p ∈ (empty.edited edits).positions.toList ↔
      (empty.edited edits).position? p.key = some p := by
    constructor
    · exact Registry.get?_key
    · exact Registry.mem_toList_of_get?
  rw [hreads.mem_iff, hfiled, hlast, and_comm]

end Book

end LeveragedLp

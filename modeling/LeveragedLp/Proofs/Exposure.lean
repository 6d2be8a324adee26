import LeveragedLp.Proofs.Ratios
import LeveragedLp.Proofs.Turns

/-!
# Exposure

The exposure of a pool is kept in the record of the pool, and the shares that make it up in the
records of the positions. In every engine that a run can reach the two agree, every position's
pool is tracked, and the health of a pool is a part of one (`Book.Sound`). Openings are the only
turn that files a position, and it does so under a number not given out before; that is what keeps
an open position from being overwritten, as long as the numbers last.

From the agreement it follows that a settlement never finds its pool untracked or short of the
shares that it takes off (`Fault.isMisbooking`).
-/

set_option autoImplicit false

namespace LeveragedLp

open Engine

/-! ## The shares that positions hold -/

/-- The part of the shares that positions do not hold is a part of one. -/
theorem Pool.freePart_mem_unit {p : Pool} {total : Amount} {d : Decimal}
    (h : p.freePart total = .ok d) : Decimal.zero ≤ d ∧ d ≤ Decimal.one := by
  unfold freePart at h
  by_cases hzero : total.isZero
  · rw [if_pos hzero] at h
    cases h
    exact ⟨by decide, by decide⟩
  · rw [if_neg hzero] at h
    obtain ⟨free, hfree, hratio⟩ := except_bind_eq_ok.1 h
    have hsplit := Amount.sub?_eq_some_iff.1 (orFault_eq_ok.1 hfree)
    have hle : free.units ≤ total.units := by omega
    exact Amount.ratio_mem_unit hle hratio

/-- The shares of one pool that a position holds. -/
def Position.sharesIn (p : Position) (pool : UInt64) : Nat :=
  if p.pool = pool then p.custody.amount.units else 0

theorem Position.Continues.sharesIn_eq {p q : Position} (hq : p.Continues q) (pool : UInt64) :
    q.sharesIn pool = p.sharesIn pool := by
  unfold sharesIn
  rw [hq.pool, hq.custody]

namespace Book

/-- The shares of one pool that the open positions hold together. -/
def exposure (b : Book) (pool : UInt64) : Nat :=
  ((b.positionsIn pool).map fun p => p.custody.amount.units).sum

theorem exposure_eq_sum (b : Book) (pool : UInt64) :
    b.exposure pool = b.positions.sum fun p => p.sharesIn pool := by
  unfold exposure positionsIn Registry.sum
  -- a position is in the pool and counts on both sides, or it counts on neither
  induction b.positions.toList with
  | nil => rfl
  | cons p ps ih =>
      by_cases hp : p.pool = pool
      · simp [Position.sharesIn, hp, ih]
      · simp [Position.sharesIn, hp, ih]

/-- A position filed in the place of its earlier record leaves every exposure as it is. -/
theorem exposure_put {b : Book} {k : PositionKey} {p q : Position}
    (hfound : b.position k = .ok p) (hq : p.Continues q) (pool : UInt64) :
    (b.put q).exposure pool = b.exposure pool := by
  have hsum := Registry.sum_insert_old (fun p => p.sharesIn pool) (hq.get?_key hfound)
  rw [exposure_eq_sum, exposure_eq_sum]
  rw [hq.sharesIn_eq] at hsum
  exact Nat.add_left_cancel hsum

/-- A new position adds its shares. -/
theorem exposure_insert {b : Book} {p : Position} (hnew : b.positions.get? p.key = none)
    (pool : UInt64) : (b.put p).exposure pool = p.sharesIn pool + b.exposure pool := by
  rw [exposure_eq_sum, exposure_eq_sum]
  exact Registry.sum_insert_new _ hnew

/-- A position that is removed takes its shares away. -/
theorem exposure_remove {b : Book} {k : PositionKey} {p : Position}
    (hfound : b.position k = .ok p) (pool : UInt64) :
    b.exposure pool = p.sharesIn pool + (b.remove k).exposure pool := by
  rw [exposure_eq_sum, exposure_eq_sum]
  exact Registry.sum_of_get? _ (position_eq_ok.1 hfound)

/-! ## The invariant -/

/-- What holds of a book after so many openings. -/
structure Sound (b : Book) (opened : Nat) : Prop where
  nextId : b.nextId.toNat = opened + 1
  ids : ∀ p ∈ b.positions.toList, p.id.toNat ≤ opened
  tracked : ∀ p ∈ b.positions.toList, (b.pool? p.pool).isSome
  exposure : ∀ pool ∈ b.pools.toList, pool.leveraged.units = b.exposure pool.id
  health : ∀ pool ∈ b.pools.toList, Decimal.zero ≤ pool.health ∧ pool.health ≤ Decimal.one

namespace Sound

variable {b b' : Book} {n : Nat} {k : PositionKey} {p q : Position} {pool tracked : Pool}

theorem empty : Book.empty.Sound 0 where
  nextId := rfl
  ids := fun _ hp => (List.not_mem_nil hp).elim
  tracked := fun _ hp => (List.not_mem_nil hp).elim
  exposure := fun _ hpool => (List.not_mem_nil hpool).elim
  health := fun _ hpool => (List.not_mem_nil hpool).elim

/-- Epochs and marks do not matter. -/
theorem congr (hb : b.Sound n) (hpositions : b'.positions = b.positions)
    (hpools : b'.pools = b.pools) (hnextId : b'.nextId = b.nextId) : b'.Sound n := by
  obtain ⟨_, _, _, epoch, retry⟩ := b'
  cases hpositions
  cases hpools
  cases hnextId
  exact ⟨hb.nextId, hb.ids, hb.tracked, hb.exposure, hb.health⟩

theorem leveraged_eq (hb : b.Sound n) {id : UInt64} (h : b.pool? id = some tracked) :
    tracked.leveraged.units = b.exposure id := by
  have hid : tracked.id = id := Registry.key_of_get? h
  rw [hb.exposure tracked (Registry.mem_toList_of_get? h), hid]

/-- A pool without positions has no exposure. -/
theorem exposure_untracked (hb : b.Sound n) {id : UInt64} (h : b.pool? id = none) :
    b.exposure id = 0 := by
  have hnone : b.positionsIn id = [] := by
    -- a position in it would have it tracked
    refine List.filter_eq_nil_iff.2 fun p hp hin => ?_
    have hsome := hb.tracked p hp
    rw [eq_of_beq hin, h] at hsome
    cases hsome
  unfold Book.exposure
  rw [hnone]
  rfl

/-- A record of a pool that tells its exposure may be filed. -/
theorem putPool (hb : b.Sound n) (hleveraged : pool.leveraged.units = b.exposure pool.id)
    (hhealth : Decimal.zero ≤ pool.health ∧ pool.health ≤ Decimal.one) :
    (b.putPool pool).Sound n where
  nextId := hb.nextId
  ids := hb.ids
  tracked := fun p hp => Registry.isSome_insert (hb.tracked p hp)
  exposure := by
    intro other hother
    rcases Registry.mem_toList_insert.1 hother with rfl | ⟨hold, -⟩
    · exact hleveraged
    · exact hb.exposure other hold
  health := by
    intro other hother
    rcases Registry.mem_toList_insert.1 hother with rfl | ⟨hold, -⟩
    · exact hhealth
    · exact hb.health other hold

/-- A position may be filed in the place of its earlier record. -/
theorem put (hb : b.Sound n) (hfound : b.position k = .ok p) (hq : p.Continues q) :
    (b.put q).Sound n := by
  have hp := Registry.mem_toList_of_get? (position_eq_ok.1 hfound)
  refine ⟨hb.nextId, fun x hx => ?_, fun x hx => ?_, fun pool hpool => ?_, hb.health⟩
  · rcases Registry.mem_toList_insert.1 hx with rfl | ⟨hold, -⟩
    · have hid : x.id = p.id := congrArg PositionKey.id hq.key
      rw [hid]
      exact hb.ids p hp
    · exact hb.ids x hold
  · rcases Registry.mem_toList_insert.1 hx with rfl | ⟨hold, -⟩
    · rw [hq.pool]
      exact hb.tracked p hp
    · exact hb.tracked x hold
  · rw [exposure_put hfound hq]
    exact hb.exposure pool hpool

/-- No position is filed under the next number yet. -/
theorem get?_next (hb : b.Sound n) (hid : p.id = b.nextId) : b.positions.get? p.key = none := by
  refine Registry.get?_eq_none_iff.2 fun x hx hkey => ?_
  -- a position with this key would have a number that is not given out yet
  have hsame : x.id = p.id := congrArg PositionKey.id hkey
  have hle := hb.ids x hx
  rw [hsame, hid, hb.nextId] at hle
  omega

/-- A position may be filed under the next number, if its pool tells the shares it adds. -/
theorem file (hb : b.Sound n) (hn : n + 1 < twoPow 64 - 1) (hid : p.id = b.nextId)
    (htracked : b.pool? p.pool = some tracked) (hpool : pool.id = p.pool)
    (hleveraged : pool.leveraged.units = tracked.leveraged.units + p.custody.amount.units)
    (hhealth : Decimal.zero ≤ pool.health ∧ pool.health ≤ Decimal.one) :
    ({ b.putPool pool with
        nextId := b.nextId + 1
        positions := b.positions.insert p } : Book).Sound (n + 1) := by
  have hexposure : ∀ id, (b.put p).exposure id = p.sharesIn id + b.exposure id :=
    exposure_insert (hb.get?_next hid)
  refine ⟨?_, fun x hx => ?_, fun x hx => ?_, fun other hother => ?_, fun other hother => ?_⟩
  · -- the numbers have not run out
    show (b.nextId + 1).toNat = n + 1 + 1
    have hnext := hb.nextId
    have hroom : n + 1 + 1 < twoPow 64 := Nat.add_lt_of_lt_sub hn
    rw [UInt64.toNat_add, hnext]
    exact Nat.mod_eq_of_lt hroom
  · -- the new position has the last number given out
    rcases Registry.mem_toList_insert.1 hx with rfl | ⟨hold, -⟩
    · exact Nat.le_of_eq (hid ▸ hb.nextId)
    · exact Nat.le_succ_of_le (hb.ids x hold)
  · refine Registry.isSome_insert ?_
    rcases Registry.mem_toList_insert.1 hx with rfl | ⟨hold, -⟩
    · exact Option.isSome_of_eq_some htracked
    · exact hb.tracked x hold
  · -- the pool of the new position tells its shares as well, the other pools have none of them
    refine Eq.trans ?_ (hexposure other.id).symm
    rcases Registry.mem_toList_insert.1 hother with rfl | ⟨hold, hne⟩
    · rw [hleveraged, hb.leveraged_eq htracked, hpool, Position.sharesIn, if_pos rfl]
      exact Nat.add_comm _ _
    · have hother : ¬ p.pool = other.id := fun heq => hne (heq.symm.trans hpool.symm)
      rw [hb.exposure other hold, Position.sharesIn, if_neg hother, Nat.zero_add]
  · rcases Registry.mem_toList_insert.1 hother with rfl | ⟨hold, -⟩
    · exact hhealth
    · exact hb.health other hold

/-- A position may be removed, if its pool tells the shares that are left. -/
theorem remove (hb : b.Sound n) (hfound : b.position k = .ok p)
    (htracked : b.pool? p.pool = some tracked) (hpool : pool.id = p.pool)
    (hleveraged : tracked.leveraged.units = pool.leveraged.units + p.custody.amount.units)
    (hhealth : Decimal.zero ≤ pool.health ∧ pool.health ≤ Decimal.one) :
    ((b.putPool pool).remove k).Sound n := by
  have hexposure : ∀ id, b.exposure id = p.sharesIn id + (b.remove k).exposure id :=
    exposure_remove hfound
  refine ⟨hb.nextId, fun x hx => ?_, fun x hx => ?_, fun other hother => ?_, fun other hother => ?_⟩
  · exact hb.ids x (Registry.mem_toList_erase.1 hx).1
  · exact Registry.isSome_insert (hb.tracked x (Registry.mem_toList_erase.1 hx).1)
  · -- the shares that were taken off are those of the removed position
    show other.leveraged.units = (b.remove k).exposure other.id
    have hsplit := hexposure other.id
    rcases Registry.mem_toList_insert.1 hother with rfl | ⟨hold, hne⟩
    · have hshares : p.sharesIn other.id = p.custody.amount.units := if_pos hpool.symm
      have hbefore := hb.leveraged_eq htracked
      rw [← hpool] at hbefore
      omega
    · have hother : ¬ p.pool = other.id := fun heq => hne (heq.symm.trans hpool.symm)
      have hshares : p.sharesIn other.id = 0 := if_neg hother
      rw [hb.exposure other hold]
      omega
  · rcases Registry.mem_toList_insert.1 hother with rfl | ⟨hold, -⟩
    · exact hhealth
    · exact hb.health other hold

end Sound

end Book

/-! ## What turns, operations and runs keep -/

section

variable {σ κ : Type} {h : Host σ κ} {op : Operation} {e e' : Engine} {s t : σ} {n m d : Nat}

theorem Opening.sound {r : OpenRequest} {block : Block} (o : Opening h r block e s t)
    (he : e.book.Sound n) (hn : n + 1 < twoPow 64 - 1) : o.after.book.Sound (n + 1) := by
  have hpart := (Pool.refresh_eq_ok o.refresh_eq).2
  have htracked := Book.pool_eq_ok.1 o.tracked_eq
  exact he.file hn rfl htracked o.pool_id o.leveraged_eq (Pool.freePart_mem_unit hpart)

theorem Closing.sound {k : PositionKey} {p : Position} {reason : CloseReason} {block : Block}
    (o : Closing h p reason block e s t) (hfound : e.book.position k = .ok p)
    (he : e.book.Sound n) : o.after.book.Sound n := by
  have hpart := (Pool.refresh_eq_ok o.refresh_eq).2
  have htracked := Book.pool_eq_ok.1 o.tracked_pool
  have hkey : o.charged.key = k := o.key_of_found hfound
  show ((e.book.putPool o.pool).remove o.charged.key).Sound n
  rw [hkey]
  exact he.remove hfound htracked o.pool_id o.leveraged_eq (Pool.freePart_mem_unit hpart)

theorem Turn.sound (x : Turn h op e s m d e' t) (he : e.book.Sound n)
    (hn : n + m < twoPow 64 - 1) : e'.book.Sound (n + m) := by
  cases x with
  | rest same => exact he.congr same.positions same.pools same.nextId
  | track pool leverageMax enabled untracked =>
      have hunit : Decimal.zero ≤ Decimal.one ∧ Decimal.one ≤ Decimal.one := by decide
      exact he.putPool (he.exposure_untracked untracked).symm hunit
  | revise tracked revises =>
      refine he.putPool ?_ ?_
      · rw [revises.leveraged, revises.id]
        exact he.leveraged_eq tracked
      · -- the health is the old one, or the free part of the shares
        rcases revises.health with hsame | ⟨total, hpart⟩
        · rw [hsame]
          exact he.health _ (Registry.mem_toList_of_get? tracked)
        · exact Pool.freePart_mem_unit hpart
  | openPosition asked o => exact o.sound he hn
  | topUp asked o => exact he.put o.found_eq o.continues
  | charge o => exact he.put o.found_eq (planEpoch_eq_ok o.plan_eq).toContinues
  | close found o => exact o.sound found he

theorem Turns.sound (x : Turns h op e s m d e' t) (he : e.book.Sound n)
    (hn : n + m < twoPow 64 - 1) : e'.book.Sound (n + m) := by
  induction x with
  | none => exact he
  | more before last ih =>
      -- the numbers that last for all turns last for those before
      rw [← Nat.add_assoc] at hn ⊢
      exact last.sound (ih (Nat.lt_of_le_of_lt (Nat.le_add_right _ _) hn)) hn

end

namespace Engine

theorem next_sound {e : Engine} {n : Nat} (he : e.book.Sound n) (q : Request)
    (hn : n + countOk Answer.openings (e.respond q) < twoPow 64 - 1) :
    (e.next q).book.Sound (n + countOk Answer.openings (e.respond q)) :=
  (perform_turns q.host e q.op q.state).sound he hn

theorem run_sound {e : Engine} {n : Nat} (he : e.book.Sound n) (qs : List Request)
    (hn : n + e.openings qs < twoPow 64 - 1) : (e.run qs).book.Sound (n + e.openings qs) := by
  induction qs generalizing e n with
  | nil => exact he
  | cons q qs ih =>
      -- the book after the first request is sound for its openings added to those before
      obtain ⟨hfirst, hrest⟩ := openings_cons_lt hn
      rw [openings, total_cons, ← Nat.add_assoc]
      exact ih (next_sound he q hfirst) hrest

theorem create_eq_ok {params : Params} {e : Engine} (h : create params = .ok e) :
    e = { params, book := .empty, events := [] } := by
  obtain ⟨_, -, h⟩ := except_bind_eq_ok.1 h
  exact (Except.ok.inj h).symm

/-- The book of a new engine is sound. -/
theorem create_sound {params : Params} {e : Engine} (h : create params = .ok e) :
    e.book.Sound 0 := by
  rw [create_eq_ok h]
  exact .empty

end Engine

end LeveragedLp

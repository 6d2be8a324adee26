import LeveragedLp.Proofs.Turns

/-!
# The engines that can be reached

An engine can be reached if it is new or comes out of a request to one that can be
(`Engine.Reachable`). What holds of all of them, however many positions were opened, is
`Book.Orderly`: the pools of open positions are tracked, and only open positions are marked for a
failed accrual. It is kept by every turn, and so by every request.
-/

set_option autoImplicit false

namespace LeveragedLp

open Engine

/-- An engine that some requests lead to from a new one, served by any hosts. -/
inductive Engine.Reachable : Engine → Prop
  | new {params : Params} {e : Engine} (created : create params = .ok e) : Reachable e
  | next {e : Engine} (before : Reachable e) (q : Request) : Reachable (e.next q)

theorem Engine.Reachable.run {e : Engine} (he : e.Reachable) (qs : List Request) :
    (e.run qs).Reachable := by
  induction qs generalizing e with
  | nil => exact he
  | cons q qs ih => exact ih (he.next q)

/-- Engine and chain after operations in turn. -/
def Sample.world (ops : List Operation) : Engine × Chain :=
  ops.foldl (fun w op => (w.1.perform Chain.host op w.2).2) (engine, Chain.initial)

theorem Sample.world_reachable (ops : List Operation) : (world ops).1.Reachable := by
  have hrest : ∀ w : Engine × Chain, w.1.Reachable →
      (ops.foldl (fun w op => (w.1.perform Chain.host op w.2).2) w).1.Reachable := by
    induction ops with
    | nil => exact fun w hw => hw
    | cons op ops ih => exact fun w hw => ih _ (hw.next ⟨Chain.host, w.2, op⟩)
  exact hrest (engine, Chain.initial) (.new engine_new)

/-- What holds of every book that is in use. -/
structure Book.Orderly (b : Book) : Prop where
  tracked : ∀ p ∈ b.positions.toList, (b.pool? p.pool).isSome
  marks : ∀ k ∈ b.retry.toList, (b.position? k).isSome

namespace Book.Orderly

variable {b : Book} {k : PositionKey} {p q : Position} {pool : Pool}

theorem empty : Book.empty.Orderly where
  tracked := fun _ hp => (List.not_mem_nil hp).elim
  marks := fun _ hk => (List.not_mem_nil hk).elim

theorem putPool (hb : b.Orderly) (pool : Pool) : (b.putPool pool).Orderly where
  tracked := fun p hp => Registry.isSome_insert (hb.tracked p hp)
  marks := hb.marks

/-- A position in a tracked pool may be filed. -/
theorem put (hb : b.Orderly) (hpool : (b.pool? p.pool).isSome) : (b.put p).Orderly where
  tracked := by
    intro x hx
    rcases Registry.mem_toList_insert.1 hx with rfl | ⟨hold, -⟩
    · exact hpool
    · exact hb.tracked x hold
  marks := fun k hk => Registry.isSome_insert (hb.marks k hk)

/-- A later record of an open position may be filed. -/
theorem put_continuing (hb : b.Orderly) (hfound : b.position k = .ok p) (hq : p.Continues q) :
    (b.put q).Orderly := by
  apply hb.put
  rw [hq.pool]
  exact hb.tracked p (Registry.mem_toList_of_get? (position_eq_ok.1 hfound))

/-- The mark of a removed position goes with it. -/
theorem remove (hb : b.Orderly) (k : PositionKey) : (b.remove k).Orderly where
  tracked := fun p hp => hb.tracked p (Registry.mem_toList_erase.1 hp).1
  marks := by
    intro l hl
    obtain ⟨hmarked, hne⟩ := Registry.mem_toList_erase.1 hl
    have hother : (b.remove k).position? l = b.position? l := Registry.get?_erase_of_ne hne
    rw [hother]
    exact hb.marks l hmarked

theorem mark (hb : b.Orderly) (hfound : b.position k = .ok p) : (b.mark k).Orderly where
  tracked := hb.tracked
  marks := by
    intro l hl
    rcases Registry.mem_toList_insert.1 hl with rfl | ⟨hold, -⟩
    · exact isSome_of_position hfound
    · exact hb.marks l hold

theorem unmark (hb : b.Orderly) (k : PositionKey) : (b.unmark k).Orderly where
  tracked := hb.tracked
  marks := fun l hl => hb.marks l (Registry.mem_toList_erase.1 hl).1

theorem setEpoch (hb : b.Orderly) (epoch : UInt64) : (b.setEpoch epoch).Orderly :=
  ⟨hb.tracked, hb.marks⟩

/-- The numbers given out do not matter. -/
theorem allocate (hb : b.Orderly) : b.allocate.2.Orderly := ⟨hb.tracked, hb.marks⟩

end Book.Orderly

section

variable {σ κ : Type} {h : Host σ κ} {op : Operation} {e e' : Engine} {s t : σ} {m d : Nat}

theorem Engine.Quiet.orderly (x : e.Quiet op e') (he : e.book.Orderly) : e'.book.Orderly := by
  cases x with
  | same => exact he
  | params valid => exact he
  | skip fault found => exact he.mark found
  | unmark k => exact he.unmark k
  | epoch epoch => exact he.setEpoch epoch
  | drain asked => exact he

theorem Opening.orderly {r : OpenRequest} {block : Block} (o : Opening h r block e s t)
    (he : e.book.Orderly) : o.after.book.Orderly := by
  have htracked : (e.book.pool? r.pool).isSome := Book.isSome_of_pool o.tracked_eq
  have hbook : o.after.book = ((e.book.allocate.2.putPool o.pool).put o.position) := rfl
  rw [hbook]
  exact (he.allocate.putPool o.pool).put (Registry.isSome_insert htracked)

theorem Closing.orderly {p : Position} {reason : CloseReason} {block : Block}
    (o : Closing h p reason block e s t) (he : e.book.Orderly) : o.after.book.Orderly :=
  (he.putPool o.pool).remove o.position.key

theorem Turn.orderly (x : Turn h op e s m d e' t) (he : e.book.Orderly) : e'.book.Orderly := by
  cases x with
  | rest same rests quiet => exact quiet.orderly he
  | track pool leverageMax enabled untracked => exact he.putPool _
  | revise tracked revises => exact he.putPool _
  | openPosition asked o => exact o.orderly he
  | topUp asked o => exact he.put_continuing o.found_eq o.continues
  | charge o => exact he.put_continuing o.found_eq (planEpoch_eq_ok o.plan_eq).toContinues
  | close found o => exact o.orderly he

theorem Turns.orderly (x : Turns h op e s m d e' t) (he : e.book.Orderly) : e'.book.Orderly := by
  induction x with
  | none => exact he
  | more before last ih => exact last.orderly ih

end

namespace Engine

theorem Reachable.orderly {e : Engine} (he : e.Reachable) : e.book.Orderly := by
  induction he with
  | new created =>
      obtain ⟨_, -, hcreated⟩ := except_bind_eq_ok.1 created
      rw [← Except.ok.inj hcreated]
      exact .empty
  | next before q ih => exact (perform_turns q.host _ q.op q.state).orderly ih

end Engine

end LeveragedLp

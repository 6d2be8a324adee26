import LeveragedLp.Proofs.Exposure
import LeveragedLp.Proofs.Rollback

/-!
# Closed pools

Closing a pool is final. No revision of its record opens it again or enables it, it cannot be
tracked anew because it is tracked already, and a settlement, the only other turn that files its
record, takes shares off it. So a pool that is shut with so many shares at most is shut after every
turn (`Turn.shut`), and after every run (`Engine.run_shut`). An opening that asks for its shares is
refused before any funds move, with the fault that says why (`Engine.openPosition_of_closed`).
-/

set_option autoImplicit false

namespace LeveragedLp

open Engine

namespace Book

/-- A pool is closed and disabled, and positions hold no more than so many of its shares. -/
def Shut (b : Book) (id : UInt64) (bound : Nat) : Prop :=
  ∃ pool, b.pool? id = some pool ∧ pool.closed = true ∧ pool.enabled = false ∧
    pool.leveraged.units ≤ bound

/-- No closed pool is enabled. -/
def ClosedDisabled (b : Book) : Prop :=
  ∀ pool ∈ b.pools.toList, pool.closed = true → pool.enabled = false

variable {b : Book} {id : UInt64} {bound : Nat} {pool tracked : Pool}

/-- A record may be filed that is not of the pool, or is shut itself. -/
theorem Shut.putPool (hb : b.Shut id bound) (hpool : pool.id = id →
    pool.closed = true ∧ pool.enabled = false ∧ pool.leveraged.units ≤ bound) :
    (b.putPool pool).Shut id bound := by
  obtain ⟨old, hget, hshut⟩ := hb
  by_cases hid : id = pool.id
  · refine ⟨pool, ?_, hpool hid.symm⟩
    rw [hid]
    exact Registry.get?_insert_self _ pool
  · exact ⟨old, (Registry.get?_insert_of_ne hid).trans hget, hshut⟩

theorem ClosedDisabled.putPool (hb : b.ClosedDisabled)
    (hpool : pool.closed = true → pool.enabled = false) : (b.putPool pool).ClosedDisabled := by
  intro x hx
  rcases Registry.mem_toList_insert.1 hx with rfl | ⟨hold, -⟩
  · exact hpool
  · exact hb x hold

theorem ClosedDisabled.of_tracked (hb : b.ClosedDisabled) (htracked : b.pool? id = some tracked) :
    tracked.closed = true → tracked.enabled = false :=
  hb tracked (Registry.mem_toList_of_get? htracked)

end Book

/-! ## What turns keep -/

section

variable {σ κ : Type} {h : Host σ κ} {op : Operation} {e e' : Engine} {s t : σ} {m d : Nat}
variable {id : UInt64} {bound : Nat}

theorem Pool.accepting_of_closed {p : Pool} (hclosed : p.closed = true) :
    p.accepting = .error (.poolUnavailable p.id .closed) := if_pos hclosed

/-- Shares are entered on a pool that is not closed. -/
theorem Opening.tracked_open {r : OpenRequest} {block : Block} (o : Opening h r block e s t) :
    o.tracked.closed = false := by
  have haccepting := (Pool.register_eq_ok o.register_eq).1
  cases hclosed : o.tracked.closed with
  | false => rfl
  | true =>
      rw [Pool.accepting_of_closed hclosed] at haccepting
      cases haccepting

theorem Turn.shut (x : Turn h op e s m d e' t) (he : e.book.Shut id bound) :
    e'.book.Shut id bound := by
  have hshut := he
  obtain ⟨pool, hget, hclosed, hdisabled, hbound⟩ := he
  cases x with
  | rest same rests quiet =>
      refine ⟨pool, ?_, hclosed, hdisabled, hbound⟩
      show e'.book.pools.get? id = some pool
      rw [same.pools]
      exact hget
  | track other leverageMax enabled untracked =>
      refine hshut.putPool fun hid => ?_
      -- the pool is tracked, and what is tracked anew was not
      change other = id at hid
      rw [hid, hget] at untracked
      cases untracked
  | @revise p q tracked revises =>
      refine hshut.putPool fun hid => ?_
      have hsame : p = pool := by
        rw [← revises.id, hid, hget] at tracked
        exact (Option.some.inj tracked).symm
      subst hsame
      refine ⟨revises.closed hclosed, ?_, ?_⟩
      · rcases revises.disabled (revises.closed hclosed) with hoff | ⟨-, hkept⟩
        · exact hoff
        · exact hkept.trans hdisabled
      · rw [revises.leveraged]
        exact hbound
  | openPosition asked o =>
      refine hshut.putPool fun hid => ?_
      have htracked := Book.pool_eq_ok.1 o.tracked_eq
      rw [← o.pool_id, hid] at htracked
      -- the shares would have been entered on the closed pool
      have hopen := o.tracked_open
      rw [Option.some.inj (htracked.symm.trans hget), hclosed] at hopen
      cases hopen
  | topUp asked o => exact hshut
  | charge o => exact hshut
  | close found o asked =>
      refine hshut.putPool fun hid => ?_
      have htracked := Book.pool_eq_ok.1 o.tracked_pool
      rw [← o.pool_id, hid] at htracked
      have hsame : o.tracked = pool := Option.some.inj (htracked.symm.trans hget)
      have hleveraged := o.leveraged_eq
      rw [hsame] at hleveraged
      have hleft : o.pool.leveraged.units ≤ bound := by omega
      rw [o.pool_eq, hsame]
      exact ⟨hclosed, hdisabled, hleft⟩

theorem Turn.closedDisabled (x : Turn h op e s m d e' t) (he : e.book.ClosedDisabled) :
    e'.book.ClosedDisabled := by
  cases x with
  | rest same rests quiet =>
      unfold Book.ClosedDisabled
      rw [same.pools]
      exact he
  | track other leverageMax enabled untracked =>
      exact Book.ClosedDisabled.putPool he fun hclosed => absurd hclosed Bool.false_ne_true
  | @revise p q tracked revises =>
      refine Book.ClosedDisabled.putPool he fun hclosed => ?_
      rcases revises.disabled hclosed with hoff | ⟨hbefore, hkept⟩
      · exact hoff
      · exact hkept.trans (he.of_tracked tracked hbefore)
  | openPosition asked o =>
      have hdisabled := he.of_tracked (Book.pool_eq_ok.1 o.tracked_eq)
      refine Book.ClosedDisabled.putPool he ?_
      rw [o.pool_eq]
      exact hdisabled
  | topUp asked o => exact he
  | charge o => exact he
  | close found o asked =>
      have hdisabled := he.of_tracked (Book.pool_eq_ok.1 o.tracked_pool)
      refine Book.ClosedDisabled.putPool he ?_
      rw [o.pool_eq]
      exact hdisabled

theorem Turns.shut (x : Turns h op e s m d e' t) (he : e.book.Shut id bound) :
    e'.book.Shut id bound := by
  induction x with
  | none => exact he
  | more before last ih => exact last.shut ih

theorem Turns.closedDisabled (x : Turns h op e s m d e' t) (he : e.book.ClosedDisabled) :
    e'.book.ClosedDisabled := by
  induction x with
  | none => exact he
  | more before last ih => exact last.closedDisabled ih

end

/-! ## What requests and runs keep -/

namespace Engine

variable {e : Engine} {id : UInt64} {bound : Nat}

theorem run_shut (he : e.book.Shut id bound) (qs : List Request) :
    (e.run qs).book.Shut id bound := by
  induction qs generalizing e with
  | nil => exact he
  | cons q qs ih => exact ih ((perform_turns q.host e q.op q.state).shut he)

theorem run_closedDisabled (he : e.book.ClosedDisabled) (qs : List Request) :
    (e.run qs).book.ClosedDisabled := by
  induction qs generalizing e with
  | nil => exact he
  | cons q qs ih => exact ih ((perform_turns q.host e q.op q.state).closedDisabled he)

/-! ## Openings that ask for a closed pool -/

section

variable {σ κ : Type} {h : Host σ κ} {r : OpenRequest} {pool : Pool}

/-- What is looked at before the pool is the collateral and the direction. -/
theorem checkRequest_of_closed (hpool : e.book.pool? r.pool = some pool)
    (hclosed : pool.closed = true) (hcollateral : ¬ r.collateral.amount.isZero)
    (hdirection : r.direction = .long) (s : σ) :
    e.checkRequest h r s = .error (.poolUnavailable r.pool .closed) := by
  have hfound : e.book.pool r.pool = .ok pool := Book.pool_eq_ok.2 hpool
  have hid : pool.id = r.pool := Registry.key_of_get? hpool
  have hrefused : pool.admits r.leverage = .error (.poolUnavailable r.pool .closed) := by
    unfold Pool.admits
    rw [Pool.accepting_of_closed hclosed, hid]
    rfl
  unfold checkRequest
  rw [if_neg hcollateral, if_neg (not_not.2 hdirection), hfound]
  show (pool.admits r.leverage >>= _) = _
  rw [hrefused]
  rfl

theorem openPosition_of_closed (hpool : e.book.pool? r.pool = some pool)
    (hclosed : pool.closed = true) (hcollateral : ¬ r.collateral.amount.isZero)
    (hdirection : r.direction = .long) (block : Block) (s : σ) :
    (e.perform h (.openPosition r block) s).1 = .error (.poolUnavailable r.pool .closed) := by
  have hcheck := checkRequest_of_closed (h := h) hpool hclosed hcollateral hdirection
    (h.checkpoint s).2
  simp only [perform, answerM, openPosition, EngineM.atomically_apply, HostM.bind_apply,
    EngineM.asking_apply, hcheck]
  rfl

end

/-- A pool is closed and disabled, with no more than so many shares held by positions, and every
opening that asks for its shares is refused because of it, and changes nothing. -/
structure ShutTo (e : Engine) (id : UInt64) (bound : Nat) : Prop where
  shut : e.book.Shut id bound
  refused : ∀ {σ κ : Type} (h : Host σ κ) (r : OpenRequest) (block : Block) (s : σ),
    r.pool = id → ¬ r.collateral.amount.isZero → r.direction = .long →
      (e.perform h (.openPosition r block) s).1 = .error (.poolUnavailable id .closed) ∧
        (e.perform h (.openPosition r block) s).2.1 = e

/-- **A closed pool stays closed.** A pool that is closed at some point of a run is closed and
disabled ever after, its exposure does not grow, and nothing is opened in it. -/
theorem run_shutTo {params : Params} (hnew : create params = .ok e) (pre post : List Request)
    {pool : Pool} (htracked : (e.run pre).book.pool? id = some pool)
    (hclosed : pool.closed = true) :
    (e.run (pre ++ post)).ShutTo id pool.leveraged.units := by
  have hbegun : e.book.ClosedDisabled := by
    rw [create_eq_ok hnew]
    exact fun _ hmem => (List.not_mem_nil hmem).elim
  have hdisabled := (run_closedDisabled hbegun pre).of_tracked htracked hclosed
  have hshut : (e.run (pre ++ post)).book.Shut id pool.leveraged.units := by
    rw [run_append]
    exact run_shut ⟨pool, htracked, hclosed, hdisabled, Nat.le_refl _⟩ post
  refine ⟨hshut, fun h r block s hid hcollateral hdirection => ?_⟩
  obtain ⟨later, hget, hlater, -⟩ := hshut
  rw [← hid] at hget
  have hrefusal := openPosition_of_closed (h := h) hget hlater hcollateral hdirection block s
  have hrefused : isRefusal ((e.run (pre ++ post)).perform h (.openPosition r block) s).1 := by
    rw [hrefusal]
    rfl
  rw [← hid]
  exact ⟨hrefusal, (perform_refused hrefused).1⟩

/-- The pool of Alice's position is closed. It is neither created nor enabled again, the chain's
list of pools does not track it anew, and the next block takes her shares off it. -/
theorem closed_pool_is_wound_down :
    let pre := Sample.inTurn Sample.engine Chain.initial
      [.createPool 1 (.tenths 50) true, .openPosition Sample.opening ⟨1, 0⟩, .closePool 1]
    let post := Sample.inTurn (Sample.engine.run pre) Sample.opened.2
      [.createPool 1 (.tenths 50) true,
       .setPoolEnabled 1 true,
       .registerAmmPools (.tenths 50),
       .beginBlock ⟨2, 788400⟩]
    let closed : Pool := { Pool.fresh 1 (.tenths 50) false with
      closed := true
      leveraged := { units := 4884 }
      health := { negative := false, mantissa := 9761621210050565197868061928, scale := 28 } }
    (Sample.engine.run pre).book.pool? 1 = some closed ∧ closed.closed = true ∧
      ((Sample.engine.run (pre ++ post)).book.pool? 1).map Pool.leveraged = some .zero ∧
      (Sample.engine.run (pre ++ post)).ShutTo 1 4884 :=
  have htracked : (Sample.engine.run (Sample.inTurn _ _ _)).book.pool? 1 = some _ := by
    decide +kernel
  ⟨htracked, rfl, by decide +kernel, run_shutTo Sample.engine_new _ _ htracked rfl⟩

end Engine

end LeveragedLp

import LeveragedLp.Proofs.Log

/-!
# The lives of positions

Along every run of the engine the log and the book tell the same (`Engine.run_tells`): what the log
has of a position is its life, the positions whose life has not ended are the open ones, and who
reads the log from its beginning knows which those are.

The log of a run is what was drained along it and what is still to be drained. A turn of the engine
only adds to the second part (`Turn.recorded`), and draining only moves events from there to the
first, so the log as a whole grows and loses nothing (`Engine.next_recorded`).
-/

set_option autoImplicit false

namespace LeveragedLp

open Engine

/-! ## The keys of the open positions -/

namespace Book

/-- The keys of the open positions. -/
def openKeys (b : Book) : Finset PositionKey := b.positions.keys.toFinset

variable {b : Book} {k : PositionKey} {p q : Position}

theorem openKeys_of_position (hfound : b.position k = .ok p) : k ∈ b.openKeys :=
  List.mem_toFinset.2 (Registry.mem_keys.2 (isSome_of_position hfound))

/-- There is an open position with a number if there is an open key with it. -/
theorem exists_openKeys_id (b : Book) (id : UInt64) :
    (∃ k ∈ b.openKeys, k.id = id) ↔ ∃ p ∈ b.positions.toList, p.id = id := by
  constructor
  · rintro ⟨k, hk, rfl⟩
    obtain ⟨p, hp, rfl⟩ := List.mem_map.1 (List.mem_toFinset.1 hk)
    exact ⟨p, hp, rfl⟩
  · rintro ⟨p, hp, rfl⟩
    exact ⟨p.key, List.mem_toFinset.2 (List.mem_map_of_mem hp), rfl⟩

theorem openKeys_put (hfound : b.position k = .ok p) (hq : p.Continues q) :
    (b.put q).openKeys = b.openKeys := by
  have hopen : (b.positions.get? q.key).isSome := Option.isSome_of_eq_some (hq.get?_key hfound)
  exact congrArg List.toFinset (Registry.keys_insert hopen)

theorem openKeys_insert (b : Book) (p : Position) :
    (b.put p).openKeys = insert p.key b.openKeys := by
  ext k
  rw [Finset.mem_insert, openKeys, openKeys, List.mem_toFinset, List.mem_toFinset]
  exact Registry.mem_keys_insert

theorem openKeys_remove (b : Book) (k : PositionKey) :
    (b.remove k).openKeys = b.openKeys.erase k := by
  ext l
  rw [Finset.mem_erase, openKeys, openKeys, List.mem_toFinset, List.mem_toFinset]
  exact Registry.mem_keys_erase

end Book

/-! ## Turns, operations and runs -/

/-- An engine after so many openings, whose log with what was drained before tells its book. -/
structure Engine.Recorded (drained : List Event) (e : Engine) (n : Nat) : Prop where
  sound : e.book.Sound n
  logged : Logged (drained ++ e.events) e.book.openKeys n

section

variable {σ κ : Type} {h : Host σ κ} {op : Operation} {e e' : Engine} {s t : σ} {n m d : Nat}
variable {drained : List Event}

/-- What is told without a change of the book is told of an open position that is kept up. -/
theorem Engine.Quiet.logged (x : e.Quiet op e') (hop : op ≠ .drainEvents)
    (he : Logged (drained ++ e.events) e.book.openKeys n) :
    Logged (drained ++ e'.events) e'.book.openKeys n := by
  cases x with
  | same => exact he
  | params valid => exact he
  | @skip k p fault found =>
      show Logged (drained ++ (e.events ++ [_])) e.book.openKeys n
      rw [← List.append_assoc]
      exact he.keepsUp rfl (Book.openKeys_of_position found) rfl
  | unmark k => exact he
  | epoch epoch => exact he
  | drain asked => exact absurd asked hop

theorem Opening.logged {r : OpenRequest} {block : Block} (o : Opening h r block e s t)
    (hnext : e.book.nextId.toNat = n + 1)
    (he : Logged (drained ++ e.events) e.book.openKeys n) :
    Logged (drained ++ o.after.events) o.after.book.openKeys (n + 1) := by
  have hkeys : o.after.book.openKeys = insert o.position.key e.book.openKeys :=
    e.book.openKeys_insert o.position
  rw [hkeys, Opening.after, ← List.append_assoc]
  exact he.opens hnext

theorem TopUp.logged {k : PositionKey} {coin : Coin} (o : TopUp h k coin e s t)
    (he : Logged (drained ++ e.events) e.book.openKeys n) :
    Logged (drained ++ o.after.events) o.after.book.openKeys n := by
  have hkeys : o.after.book.openKeys = e.book.openKeys :=
    Book.openKeys_put o.found_eq o.continues
  have hkey : o.position.key = k := o.key_eq
  rw [hkeys, TopUp.after, ← List.append_assoc]
  exact he.keepsUp rfl (Book.openKeys_of_position o.found_eq) (congrArg PositionKey.id hkey)

theorem Closing.logged {k : PositionKey} {p : Position} {reason : CloseReason} {block : Block}
    (o : Closing h p reason block e s t) (hfound : e.book.position k = .ok p)
    (he : Logged (drained ++ e.events) e.book.openKeys n) :
    Logged (drained ++ o.after.events) o.after.book.openKeys n := by
  have hkeys : o.after.book.openKeys = e.book.openKeys.erase o.settlement.position.key :=
    Book.openKeys_remove (e.book.putPool o.pool) _
  rw [hkeys, o.after_events, ← List.append_assoc]
  exact he.settles o.settlement (Book.openKeys_of_position (o.stored hfound))

theorem Turn.logged (x : Turn h op e s m d e' t) (hop : op ≠ .drainEvents)
    (hnext : e.book.nextId.toNat = n + 1) (he : Logged (drained ++ e.events) e.book.openKeys n) :
    Logged (drained ++ e'.events) e'.book.openKeys (n + m) := by
  cases x with
  | rest same rests quiet => exact quiet.logged hop he
  | track pool leverageMax enabled untracked => exact he
  | revise tracked revises => exact he
  | openPosition asked o => exact o.logged hnext he
  | topUp asked o => exact o.logged he
  | charge o =>
      have hkeys : o.after.book.openKeys = e.book.openKeys :=
        Book.openKeys_put o.found_eq (planEpoch_eq_ok o.plan_eq).toContinues
      rw [hkeys]
      exact he
  | close found o => exact o.logged found he

theorem Turn.recorded (x : Turn h op e s m d e' t) (hop : op ≠ .drainEvents)
    (he : e.Recorded drained n) (hn : n + m < twoPow 64 - 1) : e'.Recorded drained (n + m) :=
  ⟨x.sound he.sound hn, x.logged hop he.sound.nextId he.logged⟩

theorem Turns.recorded (x : Turns h op e s m d e' t) (hop : op ≠ .drainEvents)
    (he : e.Recorded drained n) (hn : n + m < twoPow 64 - 1) : e'.Recorded drained (n + m) := by
  induction x with
  | none => exact he
  | more before last ih =>
      -- the numbers that last for all turns last for those before
      rw [← Nat.add_assoc] at hn ⊢
      exact last.recorded hop (ih (Nat.lt_of_le_of_lt (Nat.le_add_right _ _) hn)) hn

end

namespace Engine

/-- What was drained along a run, and what is still to be drained after it. -/
def log (e : Engine) (qs : List Request) : List Event :=
  (e.answers qs).flatMap (toldBy Answer.drained) ++ (e.run qs).events

variable {e : Engine} {n : Nat} {drained : List Event}

/-- What drains nothing answers with no events. -/
theorem drained_eq_nil {q : Request} (hop : q.op ≠ .drainEvents) :
    toldBy Answer.drained (e.respond q) = [] := by
  refine toldBy_perform (fun answer hfits => ?_) q.host e q.state
  cases answer with
  | events events =>
      generalize q.op = op at hfits hop
      cases op with
      | drainEvents => exact absurd rfl hop
      | _ => cases hfits
  | _ => rfl

theorem next_recorded (he : e.Recorded drained n) (q : Request)
    (hn : n + countOk Answer.openings (e.respond q) < twoPow 64 - 1) :
    (e.next q).Recorded (drained ++ toldBy Answer.drained (e.respond q))
      (n + countOk Answer.openings (e.respond q)) := by
  by_cases hop : q.op = .drainEvents
  · -- the events are handed out and no longer kept
    have hperform : e.perform q.host q.op q.state =
        (.ok (.events e.events), e.drain.2, q.state) := by
      rw [hop]
      rfl
    rw [next, respond, hperform]
    refine ⟨he.sound, ?_⟩
    show Logged (drained ++ e.events ++ []) e.book.openKeys n
    rw [List.append_nil]
    exact he.logged
  · rw [drained_eq_nil hop, List.append_nil]
    exact (perform_turns q.host e q.op q.state).recorded hop he hn

theorem run_recorded (he : e.Recorded drained n) (qs : List Request)
    (hn : n + e.openings qs < twoPow 64 - 1) :
    (e.run qs).Recorded (drained ++ (e.answers qs).flatMap (toldBy Answer.drained))
      (n + e.openings qs) := by
  induction qs generalizing e n drained with
  | nil =>
      rw [answers, List.flatMap_nil, List.append_nil]
      exact he
  | cons q qs ih =>
      obtain ⟨hfirst, hrest⟩ := openings_cons_lt hn
      rw [openings, total_cons, ← Nat.add_assoc, answers, List.flatMap_cons, ← List.append_assoc]
      exact ih (next_recorded he q hfirst) hrest

theorem recorded_of_create {params : Params} (hnew : create params = .ok e) :
    e.Recorded [] 0 := by
  rw [create_eq_ok hnew]
  exact ⟨.empty, .empty⟩

end Engine

/-! ## Log and book tell the same -/

/-- A log and a book tell the same of positions. -/
structure Tells (log : List Event) (b : Book) : Prop where
  /-- First a position is opened, then it is kept up, and perhaps it is closed at last. -/
  lives : ∀ x ∈ log, ∃ ending, (ending = [] ∨ Ending ending) ∧
    IsLife (log.filter (Event.isAbout x.positionId)) ending
  losses : LossesClosed log
  open_iff : ∀ id, (∃ p ∈ b.positions.toList, p.id = id) ↔
    (∃ x ∈ log, x.positionId = id ∧ x.isOpened = true) ∧
      ∀ x ∈ log, x.positionId = id → x.isClose = false
  once : ∀ id, ((log.filter (Event.isAbout id)).filter Event.isClose).length ≤ 1
  replayed : log.foldl Event.replay ∅ = b.openKeys

theorem Logged.tells {log : List Event} {b : Book} {n : Nat} (h : Logged log b.openKeys n) :
    Tells log b where
  lives := fun _ => h.lives
  losses := h.losses
  open_iff := by
    intro id
    rw [← b.exists_openKeys_id]
    constructor
    · rintro ⟨k, hk, rfl⟩
      exact ⟨h.exists_opened hk, fun x => h.no_close_of_open hk⟩
    · rintro ⟨⟨x, hx, rfl, -⟩, hnone⟩
      exact h.open_of_no_close hx hnone
  once := h.closes_once
  replayed := h.replayed

namespace Engine

/-- **The log tells the book.** After every run of a new engine, whatever hosts serve it, its log
has the lives of all positions that were ever opened, each closed at most once, and the open
positions are those whose close it does not tell of. -/
theorem run_tells {params : Params} {e : Engine} (hnew : create params = .ok e)
    (qs : List Request) (hfew : e.openings qs < twoPow 64 - 1) :
    Tells (e.log qs) (e.run qs).book := by
  have hn : 0 + e.openings qs < twoPow 64 - 1 := by rwa [Nat.zero_add]
  exact (run_recorded (recorded_of_create hnew) qs hn).logged.tells

/-- Alice's position is opened, topped up, skipped by an accrual, and closed by force with a loss;
Bob's stays open. The events are drained twice on the way. -/
theorem loss_ends_the_life_of_alice :
    let chain := Chain.initial.fail ⟨.payInterest, .rejected "closed for the day", true⟩
    let qs := Sample.inTurn Sample.engine chain
      [.createPool 1 (.tenths 50) true,
       .openPosition Sample.opening ⟨1, 0⟩,
       .drainEvents,
       .openPosition { Sample.opening with owner := Sample.bob, leverage := .tenths 20 } ⟨1, 0⟩,
       .addCollateral ⟨Sample.alice, 1⟩ ⟨.usdc, { units := 60 }⟩,
       .accrueEpoch ⟨2, 788400⟩,
       .drainEvents,
       .forceClose ⟨Sample.alice, 1⟩ ⟨3, 31536000⟩]
    ((Sample.engine.log qs).filter (Event.isAbout 1)).map
        (fun x => (x.isOpened, x.isUpkeep, x.isLoss, x.isClose)) =
      [(true, false, false, false), (false, true, false, false), (false, true, false, false),
       (false, false, true, false), (false, false, false, true)] ∧
      (Sample.engine.log qs).foldl Event.replay ∅ = {⟨Sample.bob, 2⟩} ∧
      Tells (Sample.engine.log qs) (Sample.engine.run qs).book :=
  ⟨by decide +kernel, by decide +kernel,
    run_tells Sample.engine_new _ ((openings_le_length _ _).trans_lt (by decide +kernel))⟩

end Engine

end LeveragedLp

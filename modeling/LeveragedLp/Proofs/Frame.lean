import LeveragedLp.Proofs.Log
import LeveragedLp.Proofs.Outcomes

/-!
# What an operation on one position leaves alone

Openings, top-ups and closes act on one position each. `Engine.AgreesBut` says what such an act
leaves alone: every other position and its mark, every other pool, and all that the pool of the
position is but for exposure and health; and it tells of no other position. `ActsOn` says this of
each of the operations, with what it does to the position itself.
-/

set_option autoImplicit false

namespace LeveragedLp

open Engine

/-! ## Agreement -/

namespace Book

/-- Two books with the same pools, but for exposure and health of one. -/
structure PoolsAgreeBut (b : Book) (id : UInt64) (b' : Book) : Prop where
  others : ∀ other, other ≠ id → b'.pool? other = b.pool? other
  pool : ∃ tracked leveraged health, b.pool? id = some tracked ∧
    b'.pool? id = some { tracked with leveraged, health }

variable {b : Book} {id : UInt64} {tracked pool : Pool}

theorem PoolsAgreeBut.refl (htracked : b.pool? id = some tracked) : b.PoolsAgreeBut id b :=
  ⟨fun _ _ => rfl, tracked, tracked.leveraged, tracked.health, htracked, htracked⟩

theorem poolsAgreeBut_putPool (htracked : b.pool? id = some tracked)
    (hpool : pool = { tracked with leveraged := pool.leveraged, health := pool.health }) :
    b.PoolsAgreeBut id (b.putPool pool) := by
  have hid : pool.id = id := by
    rw [hpool]
    exact Registry.key_of_get? htracked
  constructor
  case others =>
    intro other hne
    rw [← hid] at hne
    exact Registry.get?_insert_of_ne hne
  case pool =>
    refine ⟨tracked, pool.leveraged, pool.health, htracked, ?_⟩
    rw [← hpool, ← hid]
    exact Registry.get?_insert_self _ pool

end Book

/-- Two engines that agree but for the position under a key, exposure and health of a pool, and
events about the position. -/
structure Engine.AgreesBut (e : Engine) (k : PositionKey) (pool : UInt64) (e' : Engine) : Prop where
  params : e'.params = e.params
  lastEpoch : e'.book.lastEpoch = e.book.lastEpoch
  positions : ∀ l, l ≠ k → e'.book.position? l = e.book.position? l
  pools : e.book.PoolsAgreeBut pool e'.book
  marks : ∀ l, l ≠ k → e'.book.retry.get? l = e.book.retry.get? l
  events : ∃ told, e'.events = e.events ++ told ∧ ∀ x ∈ told, x.positionId = k.id

/-- A position was closed, and with its record its mark is gone. -/
structure Engine.Closes (e : Engine) (k : PositionKey) (e' : Engine) : Prop where
  others : ∃ p, e.book.position k = .ok p ∧ e.AgreesBut k p.pool e'
  gone : e'.book.position? k = none
  unmarked : e'.book.retry.get? k = none

/-- What an operation that gave an answer did to the position under a key, and that it did nothing
to anything else. -/
inductive Engine.ActsOn (e e' : Engine) : Operation → Answer → PositionKey → Prop
  | opened {r : OpenRequest} {block : Block} {response : Response} {p : Position}
      (fresh : e.book.position? ⟨r.owner, response.positionId⟩ = none)
      (filed : e'.book.position ⟨r.owner, response.positionId⟩ = .ok p) (pool : p.pool = r.pool)
      (others : e.AgreesBut ⟨r.owner, response.positionId⟩ r.pool e')
      (marks : e'.book.retry = e.book.retry) :
      ActsOn e e' (.openPosition r block) (.opened response) ⟨r.owner, response.positionId⟩
  | toppedUp {k : PositionKey} {coin : Coin} {health : Decimal} {p q : Position}
      (found : e.book.position k = .ok p) (filed : e'.book.position k = .ok q)
      (others : e.AgreesBut k p.pool e') (pools : e'.book.pools = e.book.pools)
      (marks : e'.book.retry = e.book.retry) :
      ActsOn e e' (.addCollateral k coin) (.topUp health) k
  | closed {k : PositionKey} {block : Block} {settlement : Settlement} (closes : e.Closes k e') :
      ActsOn e e' (.close k block) (.closed settlement) k
  | forceClosed {k : PositionKey} {block : Block} {settlement : Settlement}
      (closes : e.Closes k e') :
      ActsOn e e' (.forceClose k block) (.forceClose (.closed settlement)) k
  | spared {k : PositionKey} {block : Block} {health : Decimal} (same : e' = e) :
      ActsOn e e' (.forceClose k block) (.forceClose (.notEligible health)) k

/-- Whether an operation is about one position. -/
def Operation.isAboutOne : Operation → Bool
  | openPosition _ _ => true
  | addCollateral _ _ => true
  | close _ _ => true
  | forceClose _ _ => true
  | _ => false

theorem Operation.isAboutOne_of_administers {op : Operation} (h : op.administersPools = true) :
    op.isAboutOne = false := by
  cases op <;> first | rfl | cases h

/-! ## What the steps leave alone -/

section

variable {σ κ : Type} {h : Host σ κ} {op : Operation} {e e' : Engine} {s t : σ} {n : Nat}
variable {k : PositionKey} {block : Block}

theorem Opening.agreesBut {r : OpenRequest} (o : Opening h r block e s t) :
    e.AgreesBut o.position.key r.pool o.after where
  params := rfl
  lastEpoch := rfl
  positions := fun _ hne => Registry.get?_insert_of_ne hne
  pools := by
    have hput := Book.poolsAgreeBut_putPool (Book.pool_eq_ok.1 o.tracked_eq) o.pool_eq
    exact ⟨hput.others, hput.pool⟩
  marks := fun _ _ => rfl
  events := by
    refine ⟨[.opened (o.position.summary .zero)], rfl, fun x hx => ?_⟩
    rw [List.mem_singleton.1 hx]
    rfl

theorem TopUp.agreesBut {coin : Coin} (o : TopUp h k coin e s t) {pool : Pool}
    (htracked : e.book.pool? o.before.pool = some pool) :
    e.AgreesBut k o.before.pool o.after := by
  have hkey := o.key_eq
  constructor
  case params => rfl
  case lastEpoch => rfl
  case positions =>
    intro l hne
    rw [← hkey] at hne
    exact Registry.get?_insert_of_ne hne
  case pools =>
    have hsame := Book.PoolsAgreeBut.refl htracked
    exact ⟨hsame.others, hsame.pool⟩
  case marks => exact fun _ _ => rfl
  case events =>
    refine ⟨[.collateralAdded (o.position.summary .zero) coin.amount], rfl, fun x hx => ?_⟩
    rw [List.mem_singleton.1 hx]
    exact congrArg PositionKey.id hkey

theorem Closing.closes {p : Position} {reason : CloseReason} (o : Closing h p reason block e s t)
    (hfound : e.book.position k = .ok p) : e.Closes k o.after := by
  have hkey : o.position.key = k := o.key_of_found hfound
  have hbook : o.after.book = (e.book.putPool o.pool).remove k := by
    rw [← hkey]
    rfl
  have hput := Book.poolsAgreeBut_putPool (Book.pool_eq_ok.1 o.tracked_pool) o.pool_eq
  constructor
  case gone =>
    rw [hbook]
    exact Registry.get?_erase_self _ k
  case unmarked =>
    rw [hbook]
    exact Registry.get?_erase_self _ k
  case others =>
    refine ⟨p, hfound, rfl, rfl, fun l hne => ?_, ⟨hput.others, hput.pool⟩, fun l hne => ?_, ?_⟩
    · rw [hbook]
      exact Registry.get?_erase_of_ne hne
    · rw [hbook]
      exact Registry.get?_erase_of_ne hne
    · refine ⟨o.settlement.events, o.after_events, fun x hx => ?_⟩
      rw [o.settlement.events_positionId x hx]
      exact congrArg PositionKey.id hkey

/-- What an operation about one position comes to, if it is not refused. -/
theorem Outcome.actsOn {answer : Answer} (x : Outcome h e s op (.ok answer) e' t)
    (he : e.book.Sound n) (hone : op.isAboutOne = true) : ∃ k, e.ActsOn e' op answer k := by
  cases x with
  | opened o =>
      have hfiled : o.after.book.position o.position.key = .ok o.position :=
        Book.position_eq_ok.2 (Registry.get?_insert_self _ o.position)
      -- nothing is filed yet under a number that was not given out
      have hfresh : e.book.position? o.position.key = none := he.get?_next rfl
      exact ⟨_, .opened hfresh hfiled rfl o.agreesBut rfl⟩
  | toppedUp o =>
      obtain ⟨pool, htracked⟩ := Option.isSome_iff_exists.1
        (he.tracked o.before (Registry.mem_toList_of_get? (Book.position_eq_ok.1 o.found_eq)))
      have hfiled : o.after.book.position o.position.key = .ok o.position :=
        Book.position_eq_ok.2 (Registry.get?_insert_self _ o.position)
      rw [o.key_eq] at hfiled
      exact ⟨_, .toppedUp o.found_eq hfiled (o.agreesBut htracked) rfl rfl⟩
  | closed found o => exact ⟨_, .closed (o.closes found)⟩
  | forceClosed found judged o => exact ⟨_, .forceClosed (o.closes found)⟩
  | notEligible health => exact ⟨_, .spared rfl⟩
  | administered pools administers fits =>
      rw [Operation.isAboutOne_of_administers administers] at hone
      cases hone
  | _ => cases hone

end

namespace Engine

/-- **One position at a time.** An opening, a top-up or a close that succeeds acts on one position,
and leaves every other position with its mark, every other pool, the parameters and the epoch as
they were; all that it tells is of that position. -/
theorem run_actsOn {params : Params} {e : Engine} (hnew : create params = .ok e)
    (qs : List Request) (hfew : e.openings qs < twoPow 64 - 1) {σ κ : Type} (h : Host σ κ)
    (op : Operation) (s : σ) {answer : Answer} (hone : op.isAboutOne = true)
    (hanswer : ((e.run qs).perform h op s).1 = .ok answer) :
    ∃ k, (e.run qs).ActsOn ((e.run qs).perform h op s).2.1 op answer k := by
  have hn : 0 + e.openings qs < twoPow 64 - 1 := by rwa [Nat.zero_add]
  have houtcome := perform_outcome h (e.run qs) op s
  rw [hanswer] at houtcome
  exact houtcome.actsOn (run_sound (create_sound hnew) qs hn) hone

end Engine

namespace Sample

/-- Alice and Bob have open positions in one pool, both marked for a failed accrual. -/
def marked : List Request :=
  inTurn engine
    (Chain.initial.fail ⟨.payInterest, .rejected "closed for the day", true⟩)
    [.createPool 1 (.tenths 50) true,
     .openPosition opening ⟨1, 0⟩,
     .openPosition { opening with owner := bob, leverage := .tenths 20 } ⟨1, 0⟩,
     .addCollateral ⟨alice, 1⟩ ⟨.usdc, { units := 70 }⟩,
     .addCollateral ⟨bob, 2⟩ ⟨.usdc, { units := 70 }⟩,
     .accrueEpoch ⟨2, 788400⟩]

/-- A chain on which the engine has the funds of both positions. -/
def funded : Chain :=
  (opened.2.setBalance .engine (.poolShare 1) { units := 6837 }).setBalance .engine .usdc
    { units := 140 }

/-- A forced close of Alice's position. -/
def forced : Operation := .forceClose ⟨alice, 1⟩ ⟨3, 31536000⟩

end Sample

namespace Engine

/-- Alice's position is closed by force, with her mark, and Bob's stays marked. -/
theorem close_of_alice_leaves_bob :
    (Sample.engine.run Sample.marked).book.retry.toList = [⟨Sample.alice, 1⟩, ⟨Sample.bob, 2⟩] ∧
      ((Sample.engine.run Sample.marked).perform Chain.host Sample.forced
        Sample.funded).2.1.book.retry.toList = [⟨Sample.bob, 2⟩] ∧
      ∃ answer k, (Sample.engine.run Sample.marked).ActsOn
        ((Sample.engine.run Sample.marked).perform Chain.host Sample.forced Sample.funded).2.1
        Sample.forced answer k := by
  refine ⟨by decide +kernel, by decide +kernel, ?_⟩
  have hfew : Sample.engine.openings Sample.marked < twoPow 64 - 1 :=
    (openings_le_length _ _).trans_lt (by decide +kernel)
  have hok : ((Sample.engine.run Sample.marked).perform Chain.host Sample.forced
      Sample.funded).1.isOk = true := by
    decide +kernel
  cases hanswer : ((Sample.engine.run Sample.marked).perform Chain.host Sample.forced
      Sample.funded).1 with
  | error fault =>
      rw [hanswer] at hok
      cases hok
  | ok answer =>
      exact ⟨answer, run_actsOn Sample.engine_new Sample.marked hfew Chain.host _ _ rfl hanswer⟩

end Engine

end LeveragedLp

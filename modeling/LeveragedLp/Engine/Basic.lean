import LeveragedLp.Book
import LeveragedLp.Event
import LeveragedLp.Health

/-!
# The engine

The engine is a value: its parameters, its book, and the events not yet drained, oldest first.
What is done with funds is a computation on engine and host (`EngineM`): it changes the two in
turn, and may fail after any of its changes. `EngineM.atomically` makes such a computation all or
nothing: when it fails, the book is put back, the events it added are dropped, and the host
returns to its checkpoint.
-/

set_option autoImplicit false

namespace LeveragedLp

/-- The state of the engine. -/
structure Engine where
  params : Params
  book : Book
  events : List Event
deriving DecidableEq

/-- What an owner asks for when opening a position. -/
structure OpenRequest where
  owner : Address
  collateral : Coin
  borrowAsset : Denom
  pool : UInt64
  direction : Direction
  leverage : Decimal
  takeProfit : Option Decimal
deriving DecidableEq

/-- The answer to opening and closing a position. -/
structure Response where
  positionId : UInt64
  /-- The collateral posted, or what a close returned to the owner. -/
  finalCollateral : Amount
  liabilities : Amount
  health : Decimal
  interestPaid : Amount
  repayAmount : Amount
deriving DecidableEq

namespace Engine

/-- An engine without positions and pools, for parameters that it accepts. -/
def create (params : Params) : Except Fault Engine := do
  params.validate
  return { params, book := .empty, events := [] }

/-- The engine with one more event. -/
def emit (e : Engine) (event : Event) : Engine := { e with events := e.events ++ [event] }

/-- The engine with more events. -/
def emitAll (e : Engine) (events : List Event) : Engine := { e with events := e.events ++ events }

/-- All events, and the engine without them. -/
def drain (e : Engine) : List Event × Engine := (e.events, { e with events := [] })

/-- The engine with the record of a pool replaced. -/
def withPool (e : Engine) (pool : Pool) : Engine := { e with book := e.book.putPool pool }

/-- The engine with a position filed. -/
def withPosition (e : Engine) (p : Position) : Engine := { e with book := e.book.put p }

/-! ## Questions -/

section

variable {σ κ : Type} (h : Host σ κ) (e : Engine)

/-- The health of a position by its recorded debt. -/
def positionHealth (k : PositionKey) (s : σ) : Except Fault Decimal := do
  let p ← e.book.position k
  h.healthOrMax e.params s p

/-- The value locked in a tracked pool. -/
def poolTvl (pool : UInt64) (s : σ) : Except Fault Decimal := do
  let _ ← e.book.pool pool
  (h.poolTvl s pool).mapError fun fault => .poolUnavailable pool (.host fault)

/-- The price of an asset, as the engine reads it. -/
def priceOf (asset : Denom) (s : σ) : Except Fault Decimal :=
  (h.price s asset).mapError fun fault =>
    .valuationUnavailable asset e.params.baseCurrency (.host fault)

end

end Engine

/-! ## Computations on engine and host -/

/-- A computation on the engine and its host, which may fail and leaves both in some state either
way. -/
abbrev EngineM (σ : Type) := HostM (Engine × σ)

namespace EngineM

variable {σ κ α : Type}

/-- A computation on the host alone. -/
def onHost (x : HostM σ α) : EngineM σ α := fun st => ((x st.2).1, st.1, (x st.2).2)

/-- A fallible reading of engine and host. -/
def asking (f : Engine → σ → Except Fault α) : EngineM σ α := fun st => (f st.1 st.2, st)

/-- A change of the engine. -/
def altering (f : Engine → Engine) : EngineM σ Unit := fun st => (.ok (), f st.1, st.2)

/-- Gives out the next number. -/
def allocate : EngineM σ UInt64 := fun st =>
  (.ok st.1.book.allocate.1, { st.1 with book := st.1.book.allocate.2 }, st.2)

/-- Runs a computation from a checkpoint. If it fails, the book is put back, the events it added
are dropped, and the host returns to the checkpoint. -/
def atomically (h : Host σ κ) (x : EngineM σ α) : EngineM σ α := fun st =>
  let (snapshot, s) := h.checkpoint st.2
  match x (st.1, s) with
  | (.ok a, e, t) => (.ok a, e, t)
  | (.error fault, e, t) =>
    let undone := { e with book := st.1.book, events := e.events.take st.1.events.length }
    (.error fault, undone, h.restore snapshot t)

@[simp] theorem onHost_apply (x : HostM σ α) (e : Engine) (s : σ) :
    onHost x (e, s) = ((x s).1, e, (x s).2) := rfl

@[simp] theorem asking_apply (f : Engine → σ → Except Fault α) (e : Engine) (s : σ) :
    asking f (e, s) = (f e s, e, s) := rfl

@[simp] theorem altering_apply (f : Engine → Engine) (e : Engine) (s : σ) :
    altering f (e, s) = (.ok (), f e, s) := rfl

@[simp] theorem allocate_apply (e : Engine) (s : σ) :
    (allocate : EngineM σ UInt64) (e, s) =
      (.ok e.book.nextId, { e with book := e.book.allocate.2 }, s) := rfl

theorem atomically_apply (h : Host σ κ) (x : EngineM σ α) (e : Engine) (s : σ) :
    atomically h x (e, s) = match x (e, (h.checkpoint s).2) with
      | (.ok a, e', t) => (.ok a, e', t)
      | (.error fault, e', t) =>
        (.error fault,
          { e' with book := e.book, events := e'.events.take e.events.length },
          h.restore (h.checkpoint s).1 t) := rfl

/-! ### What a success tells about the steps -/

section

variable {β : Type} {h : Host σ κ} {e : Engine} {s : σ} {st : Engine × σ} {b : β}

/-- Atomic or not, a computation succeeds alike. -/
theorem atomically_eq_ok {x : EngineM σ β} :
    atomically h x (e, s) = (.ok b, st) ↔ x (e, (h.checkpoint s).2) = (.ok b, st) := by
  rw [atomically_apply]
  rcases x (e, (h.checkpoint s).2) with ⟨_ | a, u⟩
  · simp
  · exact Iff.rfl

theorem asking_bind_eq_ok {f : Engine → σ → Except Fault α} {g : α → EngineM σ β} :
    (asking f >>= g) (e, s) = (.ok b, st) ↔ ∃ a, f e s = .ok a ∧ g a (e, s) = (.ok b, st) := by
  rw [HostM.bind_apply, asking_apply]
  cases f e s with
  | error _ => simp
  | ok a => simp

theorem ofExcept_bind_eq_ok {x : Except Fault α} {g : α → EngineM σ β} :
    ((HostM.ofExcept x : EngineM σ α) >>= g) (e, s) = (.ok b, st) ↔
      ∃ a, x = .ok a ∧ g a (e, s) = (.ok b, st) := by
  rw [HostM.bind_apply, HostM.ofExcept_apply]
  cases x with
  | error _ => simp
  | ok a => simp

theorem onHost_bind_eq_ok {x : HostM σ α} {g : α → EngineM σ β} :
    (onHost x >>= g) (e, s) = (.ok b, st) ↔
      ∃ a t, x s = (.ok a, t) ∧ g a (e, t) = (.ok b, st) := by
  rw [HostM.bind_apply, onHost_apply]
  rcases x s with ⟨_ | a, t⟩
  · simp
  · simp [and_assoc]

theorem altering_bind_apply (f : Engine → Engine) (g : Unit → EngineM σ β) (e : Engine) (s : σ) :
    (altering f >>= g) (e, s) = g () (f e, s) := rfl

theorem allocate_bind_apply (g : UInt64 → EngineM σ β) (e : Engine) (s : σ) :
    (allocate >>= g) (e, s) = g e.book.nextId ({ e with book := e.book.allocate.2 }, s) := rfl

end

end EngineM

end LeveragedLp

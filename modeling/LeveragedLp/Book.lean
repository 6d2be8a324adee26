import LeveragedLp.Exposure
import LeveragedLp.Params
import LeveragedLp.Position
import LeveragedLp.Registry

/-!
# The book

The book holds the open positions and the tracked pools, the number the next position will get,
the last epoch whose interest was accrued, and the positions whose last accrual failed. Since
positions are filed by owner first, those of one owner stand together and are read as one run.
-/

set_option autoImplicit false

namespace LeveragedLp

instance : Std.TransOrd PositionKey := inferInstanceAs <| Std.TransCmp (compareLex _ _)

instance : Std.LawfulEqOrd PositionKey where
  eq_of_compare {a b} h := by
    obtain ⟨⟨s, hs⟩, i⟩ := a
    obtain ⟨⟨t, ht⟩, j⟩ := b
    have h' := compareLex_eq_eq.1 h
    have hst : s = t := Std.LawfulEqOrd.eq_of_compare h'.1
    have hij : i = j := Std.LawfulEqOrd.eq_of_compare h'.2
    subst hst hij
    rfl

instance : Keyed Position PositionKey := ⟨Position.key⟩

instance : Keyed PositionKey PositionKey := ⟨id⟩

instance : Keyed Pool UInt64 := ⟨Pool.id⟩

/-- The records of the engine. -/
structure Book where
  positions : Registry Position
  pools : Registry Pool
  nextId : UInt64
  lastEpoch : Option UInt64
  /-- The positions whose last accrual failed. -/
  retry : Registry PositionKey
deriving DecidableEq

namespace Book

/-- The book before anything happened; numbers start at one. -/
def empty : Book where
  positions := .empty
  pools := .empty
  nextId := 1
  lastEpoch := none
  retry := .empty

instance : Inhabited Book := ⟨empty⟩

/-- The next number, and the book after it is given out. -/
def allocate (b : Book) : UInt64 × Book := (b.nextId, { b with nextId := b.nextId + 1 })

/-! ## Positions -/

def position? (b : Book) (k : PositionKey) : Option Position := b.positions.get? k

/-- The position under a key, or the fault that names it. -/
def position (b : Book) (k : PositionKey) : Except Fault Position :=
  orFault (.positionNotFound k.owner k.id) (b.position? k)

/-- Files a position, in the place of an earlier record of it. -/
def put (b : Book) (p : Position) : Book := { b with positions := b.positions.insert p }

/-- Removes a position, and with it the mark for a failed accrual. -/
def remove (b : Book) (k : PositionKey) : Book :=
  { b with positions := b.positions.erase k, retry := b.retry.erase k }

/-- The positions of one owner: the run of keys that starts with the owner's lowest. -/
def positionsOf (b : Book) (owner : Address) : List Position :=
  b.positions.run ⟨owner, 0⟩ fun p => p.owner == owner

/-- The positions in one pool. -/
def positionsIn (b : Book) (pool : UInt64) : List Position :=
  b.positions.toList.filter fun p => p.pool == pool

/-! ## Pools -/

def pool? (b : Book) (id : UInt64) : Option Pool := b.pools.get? id

/-- A tracked pool, or the fault that names it. -/
def pool (b : Book) (id : UInt64) : Except Fault Pool :=
  orFault (.poolUnavailable id .untracked) (b.pool? id)

def putPool (b : Book) (p : Pool) : Book := { b with pools := b.pools.insert p }

/-! ## Accrual -/

/-- Notes that an epoch's interest was accrued. -/
def setEpoch (b : Book) (epoch : UInt64) : Book := { b with lastEpoch := some epoch }

/-- Marks a position whose accrual failed. -/
def mark (b : Book) (k : PositionKey) : Book := { b with retry := b.retry.insert k }

/-- Takes the mark off a position. -/
def unmark (b : Book) (k : PositionKey) : Book := { b with retry := b.retry.erase k }

end Book

end LeveragedLp

import Recycler.Text.Shape

/-!
# Pools

A pool keeps holders that were released, up to its capacity, and hands the one released last to
the next item. Its counters tell how often an item got a kept holder (`hits`) or a new one
(`misses`), and how often a released holder was kept (`recycled`) or not (`dropped`).
-/

namespace Recycler

/-- The counters of a pool. -/
structure Pool.Stats where
  hits : Nat := 0
  misses : Nat := 0
  recycled : Nat := 0
  dropped : Nat := 0
  deriving DecidableEq, Inhabited

/-- Counters in printed values. -/
def Pool.Stats.text (s : Pool.Stats) : String :=
  Text.record "PoolStats" [
    ("hits", Text.nat s.hits), ("misses", Text.nat s.misses),
    ("recycled", Text.nat s.recycled), ("dropped", Text.nat s.dropped)]

/-- A pool of idle holders, the one released last in front. -/
structure Pool where
  capacity : UInt64
  idle : List Nat := []
  stats : Pool.Stats := {}
  deriving DecidableEq, Inhabited

namespace Pool

/-- The capacity of a pool that was given none. -/
def defaultCapacity : UInt64 := 8

/-- The least capacity for which there is no pool: 2 ^ 60. A pool sets aside a word of eight bytes
for each holder it may keep, and no more than 2 ^ 63 - 1 bytes in all. -/
def capacityLimit : Nat := 1152921504606846976

/-- A new pool, unless the capacity is beyond what can be set aside. -/
def new? (capacity : UInt64) : Option Pool :=
  if capacity.toNat < capacityLimit then some { capacity } else none

/-- A new pool is empty. -/
theorem eq_of_new? {capacity : UInt64} {p : Pool} (h : new? capacity = some p) :
    p = { capacity } := by
  unfold new? at h
  split at h
  · exact (Option.some.inj h).symm
  · cases h

/-- Takes the idle holder released last. Without one, the caller allocates. -/
def take (p : Pool) : Pool × Option Nat :=
  match p.idle with
  | [] => ({ p with stats := { p.stats with misses := p.stats.misses + 1 } }, none)
  | h :: idle => ({ p with idle, stats := { p.stats with hits := p.stats.hits + 1 } }, some h)

/-- Counts a released holder that is not kept. -/
def drop (p : Pool) : Pool := { p with stats := { p.stats with dropped := p.stats.dropped + 1 } }

/-- Keeps a released holder if there is room. -/
def offer (p : Pool) (holder : Nat) : Pool :=
  if p.idle.length < p.capacity.toNat then
    { p with
      idle := holder :: p.idle, stats := { p.stats with recycled := p.stats.recycled + 1 } }
  else p.drop

/-- Lets go of every idle holder. -/
def clear (p : Pool) : Pool := { p with idle := [] }

/-- A pool's policy in printed values. -/
def policyText (p : Pool) : String :=
  Text.record "PoolPolicy" [("capacity", Text.nat p.capacity.toNat)]

/-- A pool in printed values. -/
def text (p : Pool) : String :=
  Text.record "HolderPool" [
    ("capacity", Text.nat p.capacity.toNat), ("idle", Text.nat p.idle.length),
    ("stats", p.stats.text)]

end Pool

end Recycler

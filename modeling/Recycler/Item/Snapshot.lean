import Recycler.Item.Value
import Recycler.Keyed
import Recycler.Text.Quoted
import Recycler.Text.Shape

/-!
# Snapshots

The state of a tree, detached so that the next tree of the same item can go on from it: values
under text keys, one for each key, of any kind. The values are of any type whose values have kinds;
those of a session are `Value`s.
-/

namespace Recycler

/-- State detached from a tree: values under text keys. -/
structure Snapshot (υ : Type := Value) where
  values : Keyed String υ
  deriving DecidableEq, Inhabited

namespace Snapshot

variable {υ κ : Type}

/-- The snapshot without values. -/
def empty : Snapshot υ := ⟨.empty⟩

/-- Stores a value under a key, replacing an earlier value of whatever kind. -/
def put (s : Snapshot υ) (key : String) (v : υ) : Snapshot υ := ⟨s.values.put key v⟩

/-- The value under a key, if it is of the given kind. -/
def get? [Kinded υ κ] [DecidableEq κ] (s : Snapshot υ) (key : String) (k : κ) : Option υ :=
  (s.values.get? key).filter (Kinded.kind · = k)

/-- Whether there is a value under a key. -/
def contains (s : Snapshot υ) (key : String) : Bool := s.values.contains key

/-- Removes the value under a key. -/
def erase (s : Snapshot υ) (key : String) : Snapshot υ := ⟨s.values.erase key⟩

/-- Copies every value of `t` into `s`; where both have a value the one of `t` wins. -/
def merge (s t : Snapshot υ) : Snapshot υ := ⟨s.values.merge t.values⟩

/-- The number of values. -/
def size (s : Snapshot υ) : Nat := s.values.size

/-- Whether there are no values. -/
def isEmpty (s : Snapshot υ) : Bool := s.values.isEmpty

/-- The snapshot built by putting the entries of a list one after the other. -/
def ofList (es : List (String × υ)) : Snapshot υ :=
  es.foldl (fun s e => s.put e.1 e.2) empty

/-- The keys in ascending order. -/
def sortedKeys (s : Snapshot υ) : List String :=
  s.values.keys.mergeSort fun a b => decide (a ≤ b)

/-- A snapshot in printed values: its keys in ascending order, without the values. -/
def text (s : Snapshot υ) : String :=
  Text.record "StateSnapshot" [("keys", Text.list (s.sortedKeys.map Text.quote))]

end Snapshot

end Recycler

import Recycler.Item.Props
import Recycler.Item.Snapshot

/-!
# Shelves

A shelf keeps values of one type under numbers. Every place holds a blank value until another one
is put there. Operations on several bags of props, or on several snapshots, are carried out on a
shelf, one after the other; values are never changed in place, so copies are independent.

`get_set` is the equation of the only change.
-/

namespace Recycler

/-- Values under numbers, blank where nothing was put. -/
structure Shelf (α : Type) where
  blank : α
  places : Keyed Nat α := .empty

namespace Shelf

variable {α : Type}

/-- The value at a place. -/
def get (s : Shelf α) (n : Nat) : α := (s.places.get? n).getD s.blank

/-- Puts a value at a place. -/
def set (s : Shelf α) (n : Nat) (a : α) : Shelf α := { s with places := s.places.put n a }

/-- After a change the place holds the new value and every other place what it held before. -/
theorem get_set (s : Shelf α) (n m : Nat) (a : α) :
    (s.set n a).get m = if n = m then a else s.get m := by
  unfold get set
  rw [Keyed.get?_put]
  split <;> rfl

/-- Changes the value at a place. -/
def modify (s : Shelf α) (n : Nat) (f : α → α) : Shelf α := s.set n (f (s.get n))

end Shelf

/-- What an operation on a shelf yields. -/
inductive Shelf.Yield (υ : Type := Value)
  | nothing
  | truth (b : Bool)
  | value (v : Option υ)
  | text (s : String)
  deriving DecidableEq

/-! ## Props -/

/-- An operation on the bag of props at some place of a shelf. -/
inductive Props.Op
  | put (v : Value)
  | get (k : Kind)
  /-- Copies the bag to another place. -/
  | copy (target : Nat)
  | renew
  | print
  deriving DecidableEq

/-- Carries out an operation on the bag at place `n`. -/
def Props.Op.run (s : Shelf Props) (n : Nat) : Props.Op → Shelf Props × Shelf.Yield
  | put v => (s.modify n (·.put v), .nothing)
  | get k => (s, .value ((s.get n).get? k))
  | copy target => (s.set target (s.get n), .nothing)
  | renew => (s.set n .empty, .nothing)
  | print => (s, .text (s.get n).text)

/-! ## Snapshots -/

/-- An operation on the snapshot at some place of a shelf. -/
inductive Snapshot.Op (υ : Type := Value) (κ : Type := Kind)
  | put (key : String) (v : υ)
  | get (key : String) (k : κ)
  | contains (key : String)
  /-- Removes a value; yields whether there was one. -/
  | erase (key : String)
  /-- Copies every value of the snapshot at another place. -/
  | merge (source : Nat)
  /-- Copies the snapshot to another place. -/
  | copy (target : Nat)
  | renew
  deriving DecidableEq

/-- Carries out an operation on the snapshot at place `n`. -/
def Snapshot.Op.run {υ κ : Type} [Kinded υ κ] [DecidableEq κ] (s : Shelf (Snapshot υ)) (n : Nat) :
    Snapshot.Op υ κ → Shelf (Snapshot υ) × Shelf.Yield υ
  | put key v => (s.modify n (·.put key v), .nothing)
  | get key k => (s, .value ((s.get n).get? key k))
  | contains key => (s, .truth ((s.get n).contains key))
  | erase key => (s.modify n (·.erase key), .truth ((s.get n).contains key))
  | merge source => (s.modify n (·.merge (s.get source)), .nothing)
  | copy target => (s.set target (s.get n), .nothing)
  | renew => (s.set n .empty, .nothing)

end Recycler

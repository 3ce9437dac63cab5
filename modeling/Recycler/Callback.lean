import Recycler.Text.Shape

/-!
# Callbacks

The callbacks that holders and trees carry around. What a callback does when it is called is a
script, known by its number; a callback without a script only reports that it was called.

A callback that belongs to an item reaches the holder of the item through a `WeakHandle`, which
names the holder and the generation in which the handle was made. A release of the holder starts a
new generation, so the handle goes stale with the item it was made for.
-/

namespace Recycler

/-- A handle that does not keep its holder and goes stale when the holder is released. -/
structure WeakHandle where
  holder : Nat
  generation : Nat
  deriving DecidableEq

/-- A weak handle in printed values: only the generation in which it was made. -/
def WeakHandle.text (w : WeakHandle) : String :=
  Text.record "WeakHolder" [("generation", Text.nat w.generation)]

/-- Makes the measure listener of each tree that a holder builds. -/
structure Factory where
  /-- The name it goes by in reports, if it has one. -/
  name : Option String
  /-- Whether its listeners write the measured height through their handle. -/
  writesHeight : Bool
  /-- What the factory does when it is called. -/
  script : Option Nat
  /-- What its listeners do when they are called. All of them share the one script. -/
  listenerScript : Option Nat
  deriving DecidableEq

/-- Told the size whenever its tree was laid out. -/
structure MeasureListener where
  factory : Factory
  /-- The handle the factory was called with. A listener made without a holder has none. -/
  handle : Option WeakHandle
  deriving DecidableEq

/-- The listener for a tree that no holder has. -/
def MeasureListener.withoutHolder (l : MeasureListener) : MeasureListener :=
  { l with handle := none }

/-- Told when its tree has a new layout. -/
structure ReadyListener where
  /-- The name it goes by in reports, if it has one. -/
  name : Option String
  script : Option Nat
  deriving DecidableEq

end Recycler

import Recycler.Layout.Tree

/-!
# Engines and gates

An engine builds trees and measures their roots by a rule of the constraints. It keeps every tree
it ever built, in the order of their creation, and counts the layouts that were committed.

A gate stops the layouts of the engines it is set on until it is opened, and counts the layouts
that came to it. Once open it stays open.
-/

namespace Recycler

/-- A tree: the engine that built it, and its place among the trees of that engine. -/
structure TreeRef where
  engine : Nat
  index : Nat
  deriving DecidableEq

/-- How an engine measures a root. -/
inductive Measure
  /-- Always the same size. -/
  | fixed (size : Size)
  /-- The size that the constraints make of a desired one. -/
  | desired (size : Size)
  /-- As `desired`, for a width in proportion to the length of the root's name. -/
  | byName (widthPerCharacter height : Int32)
  deriving DecidableEq

namespace Measure

/-- The rule of an engine that was given none. -/
def standard : Measure := .desired ⟨320, 48⟩

/-- The size a root takes under the given constraints. -/
def size (m : Measure) (root : Component) (bounds : Bounds) : Size :=
  match m with
  | .fixed s => s
  | .desired s => ⟨bounds.width.resolve s.width, bounds.height.resolve s.height⟩
  | .byName w h =>
    ⟨bounds.width.resolve (w * Int32.ofNat root.name.length), bounds.height.resolve h⟩

end Measure

/-- How an engine reports on itself. -/
structure Engine.Manner where
  /-- Whether it reports each measuring, and what it does then. -/
  reportsMeasuring : Bool := false
  script : Option Nat := none
  /-- Whether it reports each tree it is asked for. -/
  reportsBuilding : Bool := false
  /-- Whether its trees hand out their state. -/
  keepsState : Bool := true
  deriving DecidableEq

/-- An engine with all its trees. -/
structure Engine where
  name : String
  measure : Measure := .standard
  manner : Engine.Manner := {}
  gate : Option Nat := none
  /-- The reason for which the next layout is to fail. -/
  armed : Option String := none
  /-- Whether the next tree is refused. -/
  refuses : Bool := false
  layouts : Nat := 0
  trees : List Tree := []
  deriving DecidableEq

namespace Engine

/-- Adds a new tree behind the ones built so far. -/
def build (e : Engine) (c : Tree.Config) : Engine := { e with trees := e.trees ++ [.ofConfig c] }

/-- Changes the tree at an index. -/
def modifyTree (e : Engine) (index : Nat) (f : Tree → Tree) : Engine :=
  { e with trees := e.trees.modify index f }

/-- The number of released trees. -/
def releasedTrees (e : Engine) : Nat := e.trees.countP Tree.released

end Engine

/-- A gate in front of layouts. -/
structure Gate where
  isOpen : Bool := false
  entered : Nat := 0
  deriving DecidableEq

namespace Gate

/-- Lets every layout through that waits or will come. -/
def openUp (g : Gate) : Gate := { g with isOpen := true }

/-- Counts a layout that comes to the gate. -/
def enter (g : Gate) : Gate := { g with entered := g.entered + 1 }

end Gate

end Recycler

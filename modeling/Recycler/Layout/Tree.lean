import Recycler.Callback
import Recycler.Constraint
import Recycler.Item.Descriptor
import Recycler.Item.Snapshot
import Recycler.Policy
import Recycler.Window

/-!
# Layout trees

A tree lays out one item. It keeps the component it shows, the state of the components below, the
layout that was committed last, and what was reported to it. A layout is carried out in several
steps with callbacks in between (`Recycler.Session.Layout`); here are the steps that change the
tree, each of them at once.

A released tree keeps what it had. It answers no more layouts and forgets its listener.
-/

namespace Recycler

/-- Everything that goes into a new tree. -/
structure Tree.Config where
  root : Component
  policy : Policy := {}
  /-- The state of the item's previous tree, if it was kept. -/
  snapshot : Option Snapshot := none
  clipsChildren : Bool := true
  /-- Whether the item's previous tree had been mounted. -/
  wasMounted : Bool := false
  listener : Option MeasureListener := none
  deriving DecidableEq

/-- A tree's configuration in printed values. -/
def Tree.Config.text (c : Tree.Config) : String :=
  Text.record "TreeConfig" [
    ("root", Text.quote c.root.name),
    ("policy", c.policy.text),
    ("state_snapshot", Text.option (c.snapshot.map Snapshot.text)),
    ("clip_children", Text.bool c.clipsChildren),
    ("has_mounted", Text.bool c.wasMounted),
    ("measure_listener", Text.bool c.listener.isSome)]

/-- A layout that was committed: the constraints it was asked for and the size it came to. -/
structure Tree.Committed where
  bounds : Bounds
  size : Size
  deriving DecidableEq

/-- The layout tree of one item. -/
structure Tree where
  config : Tree.Config
  root : Component
  state : Snapshot
  mounted : Bool := false
  committed : Option Tree.Committed := none
  props : Option (Shared Props) := none
  released : Bool := false
  readyListener : Option ReadyListener := none
  /-- The window reports, oldest first. -/
  windows : List (UInt64 × Window) := []
  deriving DecidableEq

namespace Tree

/-- A new tree. -/
def ofConfig (c : Config) : Tree :=
  { config := c, root := c.root, state := c.snapshot.getD .empty }

/-- Whether the tree was built from the state of an earlier tree. -/
def restored (t : Tree) : Bool := t.config.snapshot.isSome

/-- Commits a layout: the tree now shows `root` with `props`, laid out to `size`. -/
def commit (t : Tree) (root : Component) (bounds : Bounds) (props : Option (Shared Props))
    (size : Size) : Tree :=
  { t with root := root, props := props, committed := some ⟨bounds, size⟩ }

/-- Whether the committed layout is for these constraints. -/
def isLaidOutFor (t : Tree) (bounds : Bounds) : Bool :=
  match t.committed with
  | some c => c.bounds = bounds
  | none => false

/-- Releases the tree. -/
def release (t : Tree) : Tree := { t with released := true, readyListener := none }

/-- Marks the tree as mounted on screen. -/
def mount (t : Tree) : Tree := { t with mounted := true }

/-- Changes the component state under a key. -/
def update (t : Tree) (key : String) (v : Value) : Tree := { t with state := t.state.put key v }

/-- Takes a report of the visible window. -/
def reportWindow (t : Tree) (position : UInt64) (w : Window) : Tree :=
  { t with windows := t.windows ++ [(position, w)] }

/-- Replaces the listener for new layouts. -/
def setReadyListener (t : Tree) (l : Option ReadyListener) : Tree := { t with readyListener := l }

end Tree

end Recycler

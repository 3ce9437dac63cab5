import Recycler.Layout.Engine
import Recycler.Progress

/-!
# Holders

A holder keeps one list item: its descriptor, the tree that lays it out or the state of the tree
that was evicted, and what is known of its layout. Holders are used again for other items. A
release puts everything back to what a new holder has and starts a new generation, by which
handles of the previous item are told from handles of the next one.

`Holder.State` is what changes together, in one step under the lock of the holder. Beside it stand
the render progress and the generation.
-/

namespace Recycler

/-- What a holder keeps of its item's tree. -/
inductive Slot
  | empty
  /-- A tree in use. -/
  | live (tree : TreeRef)
  /-- The state of the tree that was evicted, for the next tree to go on from. -/
  | parked (state : Snapshot)
  deriving DecidableEq

namespace Slot

/-- The tree in use, if there is one. -/
def tree? : Slot → Option TreeRef
  | live t => some t
  | _ => none

/-- The state that waits for the next tree, if there is one. -/
def parked? : Slot → Option Snapshot
  | parked s => some s
  | _ => none

/-- A slot in printed values. -/
def text : Slot → String
  | empty => "empty"
  | live _ => "live"
  | parked _ => "detached"

end Slot

/-- What a holder knows of its item. -/
structure Holder.State where
  item : Option (Shared Descriptor) := none
  slot : Slot := .empty
  /-- The height that was measured last. -/
  height : Option Int32 := none
  /-- The constraints of the latest layout request. -/
  requested : Option Bounds := none
  /-- Whether the layout of the item is up to date. -/
  valid : Bool := false
  readyListener : Option ReadyListener := none
  inserted : Bool := true
  /-- Whether the tree evicted last had been mounted. -/
  mounted : Bool := false
  policy : Policy := {}
  factory : Option Factory := none
  deriving DecidableEq, Inhabited

namespace Holder.State

/-- Takes an item to keep. -/
def configure (s : State) (item : Shared Descriptor) (policy : Policy)
    (factory : Option Factory) : State :=
  { s with item := some item, policy := policy, factory := factory }

/-- Replaces the descriptor. The layout is out of date from then on. -/
def describe (s : State) (item : Shared Descriptor) : State :=
  { s with valid := false, item := some item }

/-- Declares the layout out of date. -/
def invalidate (s : State) : State := { s with valid := false }

/-- Records the constraints of a layout request. -/
def request (s : State) (bounds : Bounds) : State := { s with requested := some bounds }

/-- Puts a new tree in use. -/
def adopt (s : State) (t : TreeRef) : State := { s with slot := .live t }

/-- Gives up the state that waits for the next tree. -/
def takeParked (s : State) : State := { s with slot := .empty }

/-- Gives up the tree in use and keeps what it handed out. -/
def park (s : State) (state : Option Snapshot) (mounted : Bool) : State :=
  { s with
    slot := match state with
      | some st => .parked st
      | none => .empty
    mounted := mounted
    valid := false }

/-- Drops the state that waits for the next tree. A tree in use is left alone. -/
def clearParked (s : State) : State :=
  match s.slot with
  | .parked _ => { s with slot := .empty }
  | _ => s

/-- Whether a layout made for `item` on `tree` is still a layout of this holder: both are the ones
it has now. -/
def isCurrent (s : State) (item : Shared Descriptor) (tree : TreeRef) : Bool :=
  decide (s.slot.tree? = some tree) && s.item.any (·.same item)

/-- Commits a layout that came to `height`. -/
def commit (s : State) (height : Int32) : State :=
  { s with valid := true, height := some height }

end Holder.State

/-- A holder. `home` is the pool it goes back to. -/
structure Holder where
  home : Nat
  generation : Nat := 0
  progress : Progress := .uninitialized
  state : Holder.State := {}
  deriving DecidableEq

namespace Holder

/-- A holder as a pool allocates it. -/
def fresh (home : Nat) : Holder := { home }

/-- Puts everything back to what a new holder has and starts a new generation. -/
def reset (h : Holder) : Holder :=
  { h with state := {}, progress := .uninitialized, generation := h.generation + 1 }

/-- Whether a holder has, identity and generation apart, all a new one has. -/
def IsReset (h : Holder) : Prop := h.state = {} ∧ h.progress = .uninitialized

theorem isReset_fresh (home : Nat) : (fresh home).IsReset := ⟨rfl, rfl⟩

theorem isReset_reset (h : Holder) : h.reset.IsReset := ⟨rfl, rfl⟩

/-- A handle that is good until the next release. -/
def downgrade (h : Holder) (number : Nat) : WeakHandle := ⟨number, h.generation⟩

/-- A holder in printed values. -/
def text (h : Holder) : String :=
  Text.record "ComponentTreeHolder" [
    ("render_info", Text.option (h.state.item.map fun item => Text.quote item.value.name)),
    ("tree", Text.quote h.state.slot.text),
    ("is_tree_valid", Text.bool h.state.valid),
    ("last_measured_height", Text.option (h.state.height.map fun n => Text.int n.toInt)),
    ("is_inserted", Text.bool h.state.inserted),
    ("render_state", h.progress.text)]

end Holder

end Recycler

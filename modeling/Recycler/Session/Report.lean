import Recycler.Store.Basic
import Recycler.Section.Edits

/-!
# Replies and reports

What a session answers: the reply to each command, and what its callbacks report while a command
runs. Holders are shown as `HolderView`s, in which instances go by the order in which they were
first shown.
-/

namespace Recycler

/-- What the tree of a holder is shown as. -/
inductive TreeName
  /-- A tree of the engine in a register, by its place among the trees of the engine. -/
  | known (engine : String) (index : Nat)
  /-- A tree whose engine is in no register. -/
  | unknown
  deriving DecidableEq

/-- A holder as it is shown. -/
structure HolderView where
  /-- The place of the instance in the order in which holders were first shown. -/
  instanceNumber : Nat
  item : Option (Shared Descriptor)
  valid : Bool
  height : Option Int32
  requested : Option Bounds
  inserted : Bool
  mounted : Bool
  parked : Bool
  /-- The tree in use. -/
  tree : Option TreeName
  progress : Progress
  /-- Whether the layout of the item is the one for the latest request. -/
  laidOut : Bool
  deriving DecidableEq

/-- Why a command was not carried out to its end. -/
inductive Trouble
  | failure (failure : Failure)
  | panic (message : String)
  /-- A field has a bad value. -/
  | malformed (field : String)
  /-- A field names a register that is not filled. -/
  | unknown (field : String)
  deriving DecidableEq

/-- The reply to a command. -/
inductive Reply
  | done
  | truth (b : Bool)
  | count (n : Nat)
  | text (s : String)
  | edits (e : Edits)
  | engine (trees layouts released : Nat)
  | context (tag : String)
  | gate (entered : Nat)
  /-- A pool, with its counters in printed form if it is not the shared one. -/
  | pool (capacity : UInt64) (printed : Option Pool)
  | holder (view : HolderView)
  | size (size : Option Size)
  | value (value : Value)
  | tree (tree : Tree)
  | built (engine : String) (index : Nat) (config : Tree.Config)
  | running
  | finished (reply : Reply)
  | trouble (trouble : Trouble)
  deriving DecidableEq

/-- What a callback reports. -/
inductive Event
  /-- A factory was called with a handle; `holder` is what the handle resolves to. -/
  | factory (name : Option String) (holder : Option HolderView) (handle : WeakHandle)
  /-- An engine was asked for a tree. -/
  | building (engine : String) (config : Tree.Config)
  /-- An engine measures a root. -/
  | measuring (engine root : String) (bounds : Bounds)
  /-- A measure listener was told a size. `written` is whether it wrote the height, if it tried. -/
  | measured (name : Option String) (size : Size) (written : Option Bool)
  /-- A listener was told of a new layout. -/
  | ready (name : Option String) (mounted : Bool)
  /-- A step of a script was carried out. -/
  | step (name : Option String) (reply : Reply)
  deriving DecidableEq

/-- The counters of a pool as they are shown. -/
structure PoolView where
  name : String
  idle : Nat
  stats : Pool.Stats
  deriving DecidableEq

/-- The answer to one step of a session. -/
structure Answer where
  reply : Reply
  holder : Option HolderView := none
  pools : Option (List PoolView) := none
  events : List Event := []
  logs : List Log := []
  deriving DecidableEq

end Recycler

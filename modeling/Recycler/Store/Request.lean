import Recycler.Store.Basic

/-!
# Layout requests

A layout request on a holder comes in four steps, with other work possible in between.

1. `openRequest` records the constraints and finds out what the request is for. If a tree is in
   use the request is made for it.
2. Otherwise the measure listener is made, and `claimTree` builds a tree for it, unless the holder
   was released or given a tree in the meantime.
3. The tree is laid out (`Recycler.Store.Layout`).
4. `commitLayout` takes the result over if the holder still has the descriptor and the tree that
   the request was made for. A request in the background takes its promise over instead, by
   `confirmLayout`, as soon as the layout is handed over.
-/

namespace Recycler

/-- A layout asked of a holder. -/
structure Call where
  holder : Nat
  engine : Nat
  /-- The tag of the context the layout is asked in. -/
  tag : String
  bounds : Bounds
  /-- Whether the layout runs in the background and nobody waits for it. -/
  background : Bool
  deriving DecidableEq

/-- The context a layout is asked in, in printed values: the tag of its log lines. -/
def Call.contextText (tag : String) : String :=
  Text.record "ComponentContext" [("log_tag", Text.quote tag)]

/-- What a call was found to be for: the descriptor and the tree of the holder at that time. -/
structure Request where
  call : Call
  item : Shared Descriptor
  component : Component
  tree : TreeRef
  deriving DecidableEq

namespace Request

/-- The layout that a request comes down to. -/
def layout (r : Request) : Layout where
  tree := r.tree
  root := r.component
  bounds := r.call.bounds
  props := r.item.value.props

end Request

namespace Store

/-- What a call is for, as its first step finds it. -/
inductive Opening
  /-- The holder has no descriptor. -/
  | released
  /-- A view renders the item. -/
  | view
  /-- There is a tree in use. -/
  | live (request : Request)
  /-- There is no tree yet. One made by the factory goes with the next tree. -/
  | vacant (item : Shared Descriptor) (component : Component) (factory : Option Factory)
      (handle : WeakHandle)
  deriving DecidableEq

/-- The first step of a call: records the constraints, unless nothing is to be laid out. -/
def openRequest (s : Store) (call : Call) : Store × Opening :=
  match s.holders[call.holder]? with
  | none => (s, .released)
  | some holder =>
    match holder.state.item with
    | none => (s, .released)
    | some item =>
      match item.value.component? with
      | none => (s, .view)
      | some component =>
        let s := s.modifyState call.holder (·.request call.bounds)
        match holder.state.slot.tree? with
        | some tree => (s, .live { call, item, component, tree })
        | none =>
          (s, .vacant item component holder.state.factory (holder.downgrade call.holder))

/-- How the second step of a call ends. -/
inductive Claim
  /-- The holder was released since the first step. -/
  | stale
  /-- The holder was given a tree since the first step. -/
  | found (tree : TreeRef)
  /-- A tree was built. -/
  | built (config : Tree.Config) (tree : TreeRef)
  /-- The engine refused to build a tree. -/
  | refused (config : Tree.Config)
  deriving DecidableEq

/-- The configuration of a tree built now for a holder in this state. -/
def treeConfig (state : Holder.State) (item : Shared Descriptor) (component : Component)
    (listener : Option MeasureListener) : Tree.Config where
  root := component
  policy := state.policy
  snapshot := state.slot.parked?
  clipsChildren := item.value.clipsChildren
  wasMounted := state.mounted
  listener := listener

/-- The second step of a call, for what the first step found and the measure listener made since.
A tree that is built takes the parked state over. The parked state is gone even if the engine
refuses the tree. -/
def claimTree (s : Store) (call : Call) (item : Shared Descriptor) (component : Component)
    (handle : WeakHandle) (listener : Option MeasureListener) : Store × Claim :=
  match s.holders[call.holder]?, s.engines[call.engine]? with
  | some holder, some engine =>
    if holder.generation = handle.generation then
      match holder.state.slot.tree? with
      | some tree => (s, .found tree)
      | none =>
        let config := treeConfig holder.state item component listener
        let s := s.modifyState call.holder (·.takeParked)
        if engine.refuses then
          (s.modifyEngine call.engine ({ · with refuses := false }), .refused config)
        else
          let tree : TreeRef := ⟨call.engine, engine.trees.length⟩
          let s := s.modifyEngine call.engine (·.build config)
          let s := match holder.state.readyListener with
            | some l => s.modifyTree tree (·.setReadyListener (some l))
            | none => s
          (s.modifyState call.holder (·.adopt tree), .built config tree)
    else (s, .stale)
  | _, _ => (s, .stale)

/-- Whether the holder still has the descriptor and the tree a request was made for. -/
def isCurrent (s : Store) (r : Request) : Bool :=
  match s.holders[r.call.holder]? with
  | some holder => holder.state.isCurrent r.item r.tree
  | none => false

/-- The last step of a call that was waited for: takes the result over if it is still current. -/
def commitLayout (s : Store) (r : Request) (size : Size) : Store :=
  if s.isCurrent r then s.modifyState r.call.holder (·.commit size.height) else s

/-- The last step of a call in the background: counts the layout as done once it is handed over,
if it is still current. -/
def confirmLayout (s : Store) (r : Request) : Store :=
  if s.isCurrent r then s.modifyState r.call.holder ({ · with valid := true }) else s

end Store

end Recycler

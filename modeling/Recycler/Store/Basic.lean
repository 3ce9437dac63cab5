import Recycler.Holding.Holder
import Recycler.Holding.Pool
import Recycler.Layout.Failure
import Recycler.Log

/-!
# The store

All holders, engines, gates, pools and queues of background layouts, by number. A number is given
once and stays with its bearer. The pool numbered `sharedPool` is there from the start; a pool that
was given up leaves a gap.

The other modules of this folder hold the steps that holders and trees go through, one function
for each stretch of work during which nothing else can happen. Here are the ways into the tables:
looking up an entry and changing one.
-/

namespace Recycler

/-- A layout to be carried out on a tree. -/
structure Layout where
  tree : TreeRef
  root : Component
  bounds : Bounds
  props : Option (Shared Props) := none
  deriving DecidableEq

/-- Layouts that wait for their turn, the one handed over first in front. -/
structure Queue where
  name : String
  /-- Whether a worker of its own carries the layouts out. -/
  hasWorker : Bool
  waiting : List Layout := []
  deriving DecidableEq

/-- All holders, engines, gates, pools and queues. -/
structure Store where
  holders : List Holder := []
  engines : List Engine := []
  gates : List Gate := []
  pools : List (Option Pool) := [some { capacity := Pool.defaultCapacity }]
  queues : List Queue := []
  deriving DecidableEq

namespace Store

/-- The number of the pool that everybody shares. -/
def sharedPool : Nat := 0

/-- The pool with a number, unless it was given up. -/
def pool? (s : Store) (p : Nat) : Option Pool := s.pools[p]?.join

/-- The tree a reference is to. -/
def tree? (s : Store) (t : TreeRef) : Option Tree :=
  s.engines[t.engine]?.bind fun e => e.trees[t.index]?

/-- Changes the holder with a number. -/
def modifyHolder (s : Store) (h : Nat) (f : Holder → Holder) : Store :=
  { s with holders := s.holders.modify h f }

/-- Changes what the holder with a number knows of its item. -/
def modifyState (s : Store) (h : Nat) (f : Holder.State → Holder.State) : Store :=
  s.modifyHolder h fun holder => { holder with state := f holder.state }

/-- Changes the engine with a number. -/
def modifyEngine (s : Store) (e : Nat) (f : Engine → Engine) : Store :=
  { s with engines := s.engines.modify e f }

/-- Changes the tree a reference is to. -/
def modifyTree (s : Store) (t : TreeRef) (f : Tree → Tree) : Store :=
  s.modifyEngine t.engine fun e => e.modifyTree t.index f

/-- Changes the gate with a number. -/
def modifyGate (s : Store) (g : Nat) (f : Gate → Gate) : Store :=
  { s with gates := s.gates.modify g f }

/-- Changes the pool with a number. -/
def modifyPool (s : Store) (p : Nat) (f : Pool → Pool) : Store :=
  { s with pools := s.pools.modify p (Option.map f) }

/-- Changes the queue with a number. -/
def modifyQueue (s : Store) (q : Nat) (f : Queue → Queue) : Store :=
  { s with queues := s.queues.modify q f }

/-- Whether the holder with a number waits in some pool. -/
def isIdle (s : Store) (h : Nat) : Bool :=
  s.pools.any fun p => p.any fun pool => pool.idle.contains h

/-- Whether the layout of the item is the one for the latest request: always for a view, and for
a component if its tree is laid out for the constraints that were requested last. -/
def isLaidOut (s : Store) (h : Nat) : Bool :=
  match s.holders[h]? with
  | none => false
  | some holder =>
    match holder.state.item with
    | none => false
    | some item =>
      item.value.rendersView ||
        match holder.state.slot.tree?.bind s.tree?, holder.state.requested with
        | some tree, some bounds => tree.isLaidOutFor bounds
        | _, _ => false

end Store

end Recycler

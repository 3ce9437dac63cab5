import Recycler.Store.Basic

/-!
# Layouts on a tree

A layout is carried out on its tree in steps, with callbacks in between: `enterLayout` checks that
the layout can begin, and `settleLayout` commits the measured size, after which the listeners of
the tree are told. A measure listener may write the height to the holder of its item by
`writeHeight`. Layouts that nobody waits for may go through a queue, first in and first out.
-/

namespace Recycler.Store

/-- How a layout begins. -/
inductive Entry
  | failed (failure : Failure)
  /-- The layout goes on once the gate is open, if its engine has one. -/
  | free (gate : Option Nat)
  deriving DecidableEq

/-- The first step of a layout. A released tree answers none; otherwise an armed failure strikes,
once; otherwise the layout comes to the gate of the engine. -/
def enterLayout (s : Store) (t : TreeRef) : Store × Entry :=
  match s.engines[t.engine]?, s.tree? t with
  | some engine, some tree =>
    if tree.released then (s, .failed .released)
    else
      match engine.armed with
      | some reason =>
        (s.modifyEngine t.engine ({ · with armed := none }), .failed (.measure reason))
      | none =>
        match engine.gate with
        | some g => (s.modifyGate g Gate.enter, .free (some g))
        | none => (s, .free none)
  | _, _ => (s, .failed .released)

/-- The size a layout comes to. -/
def measure (s : Store) (l : Layout) : Size :=
  match s.engines[l.tree.engine]? with
  | some engine => engine.measure.size l.root l.bounds
  | none => ⟨0, 0⟩

/-- The step that commits a measured size to the tree and counts the layout. -/
def settleLayout (s : Store) (l : Layout) (size : Size) : Store :=
  (s.modifyTree l.tree (·.commit l.root l.bounds l.props size)).modifyEngine l.tree.engine
    fun e => { e with layouts := e.layouts + 1 }

/-- Hands a layout over to a queue, behind the layouts that wait there. -/
def enqueue (s : Store) (q : Nat) (l : Layout) : Store :=
  s.modifyQueue q fun queue => { queue with waiting := queue.waiting ++ [l] }

/-- Takes the layout that has waited longest from a queue. -/
def dequeue (s : Store) (q : Nat) : Store × Option Layout :=
  match s.queues[q]? with
  | some { waiting := l :: rest, .. } => (s.modifyQueue q ({ · with waiting := rest }), some l)
  | _ => (s, none)

/-- Whether a handle is of the holder's current generation. -/
def isOfGeneration (s : Store) (w : WeakHandle) : Bool :=
  match s.holders[w.holder]? with
  | some holder => holder.generation = w.generation
  | none => false

/-- Writes a measured height through a handle of the current generation. -/
def writeHeight (s : Store) (w : WeakHandle) (height : Int32) : Store :=
  if s.isOfGeneration w then s.modifyState w.holder ({ · with height := some height }) else s

end Recycler.Store

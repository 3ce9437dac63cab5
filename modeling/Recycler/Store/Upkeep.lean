import Recycler.Store.Basic

/-!
# Upkeep of holders

The steps by which holders come and go: an item acquires one from a pool, is evicted from the
working range, and releases its holder, which goes back to its pool if nobody else refers to it.
-/

namespace Recycler.Store

/-- Gives a pool up, and with it every holder that is idle there. -/
def dropPool (s : Store) (p : Nat) : Store := { s with pools := s.pools.set p none }

/-- Takes the idle holder released last from a pool, or allocates one. -/
def takeHolder (s : Store) (p : Nat) : Store × Nat × Bool :=
  match (s.pool? p).bind fun pool => pool.take.2 with
  | some h => (s.modifyPool p (·.take.1), h, true)
  | none =>
    let s := s.modifyPool p (·.take.1)
    ({ s with holders := s.holders ++ [.fresh p] }, s.holders.length, false)

/-- Hands the item to a holder taken for it. -/
def configure (s : Store) (h : Nat) (item : Shared Descriptor) (policy : Policy)
    (factory : Option Factory) : Store :=
  s.modifyState h (·.configure item policy factory)

/-- The log line about where a holder came from. -/
def acquireLog (item : Shared Descriptor) (reused : Bool) : Log :=
  if reused then ⟨.trace, "reusing pooled holder for " ++ item.value.name⟩
  else ⟨.debug, "holder pool empty, allocating for " ++ item.value.name⟩

/-- Releases the tree in use and keeps its state for the next tree, if it hands it out. Without a
tree in use, state that is already parked stays. -/
def evict (s : Store) (h : Nat) : Store :=
  match s.holders[h]?.bind fun holder => holder.state.slot.tree? with
  | none => s.modifyState h (·.invalidate)
  | some t =>
    match s.engines[t.engine]?, s.tree? t with
    | some engine, some tree =>
      (s.modifyTree t Tree.release).modifyState h fun state =>
        state.park (if engine.manner.keepsState then some tree.state else none) tree.mounted
    | _, _ => s.modifyState h (·.park none false)

/-- Releases a holder: its tree is released without keeping the state, and everything goes back
to what a new holder has. -/
def reset (s : Store) (h : Nat) : Store :=
  let s := match s.holders[h]?.bind fun holder => holder.state.slot.tree? with
    | some t => s.modifyTree t Tree.release
    | none => s
  s.modifyHolder h Holder.reset

/-- Offers a released holder back to its pool, if there still is one. Nothing is kept that is still
referred to. -/
def giveBack (s : Store) (h : Nat) (referred : Bool) : Store × List Log :=
  match s.holders[h]? with
  | none => (s, [])
  | some holder =>
    match s.pool? holder.home with
    | none => (s, [])
    | some _ =>
      if referred then
        (s.modifyPool holder.home Pool.drop,
          [⟨.debug, "released holder is still referenced, not pooling it"⟩])
      else (s.modifyPool holder.home (·.offer h), [])

/-- Sets the listener for new layouts, on the tree in use and for every tree built until the holder
is released. -/
def setReadyListener (s : Store) (h : Nat) (l : Option ReadyListener) : Store :=
  let s := match s.holders[h]?.bind fun holder => holder.state.slot.tree? with
    | some t => s.modifyTree t (·.setReadyListener l)
    | none => s
  s.modifyState h ({ · with readyListener := l })

/-- Passes a report of the visible window on to the tree in use. -/
def reportWindow (s : Store) (h : Nat) (position : UInt64) (w : Window) : Store :=
  match s.holders[h]?.bind fun holder => holder.state.slot.tree? with
  | some t => s.modifyTree t (·.reportWindow position w)
  | none => s

end Recycler.Store

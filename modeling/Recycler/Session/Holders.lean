import Recycler.Session.Basic
import Recycler.Store.Request
import Recycler.Store.Upkeep

/-!
# Commands about holders and pools

A handle register is one reference to a holder. `acquire` fills one, a release empties it before
it is decided whether the holder goes back to its pool: the holder is kept only if that register
was the last reference.
-/

namespace Recycler.Session

/-- Replies with a holder as it is shown. -/
def answerHolder (s : Session) (i : Nat) (h : Nat) : Session :=
  let (s, view) := s.view? h
  s.answer i (match view with
    | some v => .holder v
    | none => .done)

/-! ## Pools -/

/-- Makes a pool, unless its capacity is beyond all bounds. A pool that was in the register is
given up. -/
def makePool (s : Session) (i : Nat) (into : String) (capacity : UInt64) : Session :=
  match Pool.new? capacity with
  | none => s.panic i "capacity overflow"
  | some pool =>
    let s := match s.registers.pools.get? into with
      | some p => s.modifyStore (·.dropPool p)
      | none => s
    let number := s.store.pools.length
    let s := s.modifyStore fun store => { store with pools := store.pools ++ [some pool] }
    (s.modifyRegisters fun r => { r with pools := r.pools.put into number }).answer i
      (.text pool.policyText)

/-- Gives up the pool in a register and replies whether there was one. -/
def dropPool (s : Session) (i : Nat) (name : String) : Session :=
  match s.registers.pools.get? name with
  | none => s.answer i (.truth false)
  | some p =>
    ((s.modifyStore (·.dropPool p)).modifyRegisters fun r =>
      { r with pools := r.pools.erase name }).answer i (.truth true)

/-- The pool a name stands for, and the session in which it counts as looked up. -/
def usePool (s : Session) (name : String) : Except Trouble (Session × Nat) := do
  let p ← s.pool name
  return ({ s with namedShared := s.namedShared || name = sharedName }, p)

/-- Acquires a holder from a pool. Without a register to fill the holder is taken all the same. -/
def acquire (s : Session) (i : Nat) (item : String) (settings : List (Policy.Setting String))
    (factory : Option Factory) (pool : String) (into : Target) : Except Trouble Session := do
  let item ← s.item item
  let policy ← s.policy settings
  let (s, p) ← s.usePool pool
  let (store, h, reused) := s.store.takeHolder p
  let s := { s with store := store.configure h item policy factory }
  let s := (s.write [Store.acquireLog item reused]).answerHolder i h
  return s.fill i into fun name => s.setHandle name h

/-- Carries out a command about a pool. -/
def performOnPool (s : Session) (i : Nat) (name : String) (c : PoolCommand) :
    Except Trouble Session := do
  let (s, p) ← s.usePool name
  match c with
  | .view =>
    let pool ← need "pool" (s.store.pool? p)
    return s.answer i (.pool pool.capacity (if p = Store.sharedPool then none else some pool))
  | .clear => return (s.modifyStore (·.modifyPool p Pool.clear)).answer i .done

/-! ## Holders -/

/-- Begins to release the holder in a register, which is empty from then on. The holder is reset
before it is offered back to its pool. -/
def release (s : Session) (i : Nat) (name : String) (h : Nat) : Session :=
  let s := s.modifyRegisters fun r => { r with handles := r.handles.erase name }
  (s.modifyStore (·.reset h)).push i [.giveBack h]

/-- The last step of a release. A holder that somebody refers to, or a pool, is not kept. -/
def stepGiveBack (s : Session) (i : Nat) (h : Nat) : Session :=
  let (store, lines) := s.store.giveBack h (s.isAlive h)
  ({ s with store := store }.write lines).answer i .done

/-- Begins a layout request on a holder. -/
def requestLayout (s : Session) (i : Nat) (bounds : Bounds) (engine tag handle : String)
    (background : Bool) : Except Trouble Session := do
  let engine ← s.engine engine
  let holder ← s.holder handle
  return s.push i [.openRequest { holder, engine, tag, bounds, background }]

/-- Changes what the holder with a number knows of its item. -/
def update (s : Session) (i : Nat) (h : Nat) (f : Holder.State → Holder.State) : Session :=
  (s.modifyStore (·.modifyState h f)).answer i .done

/-- Carries out a command about the holder in a register. -/
def performOnHolder (s : Session) (i : Nat) (name : String) (c : HolderCommand) :
    Except Trouble Session := do
  let h ← s.holder name
  match c with
  | .clone into => return (s.setHandle into h).answer i .done
  | .release => return s.release i name h
  | .print =>
    let holder ← need "handle" s.store.holders[h]?
    return s.answer i (.text holder.text)
  | .view => return s.answerHolder i h
  | .downgrade into =>
    let holder ← need "handle" s.store.holders[h]?
    let w := holder.downgrade h
    return (s.modifyRegisters fun r => { r with weaks := r.weaks.put into w }).answer i
      (.text w.text)
  | .describe item =>
    let item ← s.item item
    return s.update i h (·.describe item)
  | .invalidate => return s.update i h (·.invalidate)
  | .setHeight height => return s.update i h ({ · with height := some height })
  | .setInserted inserted => return s.update i h ({ · with inserted := inserted })
  | .advance progress =>
    return (s.modifyStore (·.modifyHolder h fun holder =>
      { holder with progress := holder.progress.advance progress })).answer i .done
  | .clearParked => return s.update i h (·.clearParked)
  | .evict => return (s.modifyStore (·.evict h)).answer i .done
  | .reportWindow position window =>
    return (s.modifyStore (·.reportWindow h position window)).answer i .done
  | .setReadyListener listener =>
    return (s.modifyStore (·.setReadyListener h listener)).answer i .done

/-- Empties a handle register and replies whether it was filled. -/
def dropHandle (s : Session) (i : Nat) (name : String) : Session :=
  let filled := s.registers.handles.contains name
  (s.modifyRegisters fun r => { r with handles := r.handles.erase name }).answer i (.truth filled)

/-! ## Weak handles -/

/-- Resolves a weak handle and replies with the number under which the holder is shown. -/
def upgrade (s : Session) (i : Nat) (weak : String) (into : Option Target) :
    Except Trouble Session := do
  let w ← s.weakHandle weak
  match s.resolve? w with
  | none => return s.answer i .done
  | some h =>
    let (s, n) := s.showHolder h
    let s := s.answer i (.count n)
    match into with
    | some target => return s.fill i target fun name => s.setHandle name h
    | none => return s

/-- Writes a height through a weak handle and replies whether it was taken. -/
def writeHeight (s : Session) (i : Nat) (weak : String) (height : Int32) :
    Except Trouble Session := do
  let w ← s.weakHandle weak
  match s.resolve? w with
  | none => return s.answer i (.truth false)
  | some _ => return (s.modifyStore (·.writeHeight w height)).answer i (.truth true)

end Recycler.Session

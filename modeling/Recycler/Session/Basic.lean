import Recycler.Session.Thread
import Recycler.Store.Layout

/-!
# Sessions

The state of a session: the store, the registers through which commands name what is in it, the
threads with the work that is under way, what is left of the scripts, and what has been reported
since the current step began.

Who refers to a holder is not counted as the session goes along. It can be read off the session at
any time: the handle registers, and what is in progress on any thread. A holder exists as long as
somebody refers to it or a pool keeps it.
-/

namespace Recycler

/-- What commands filled so far, by name. -/
structure Registers where
  components : Keyed String Component := .empty
  items : Keyed String (Shared Descriptor) := .empty
  executors : Keyed String Executor := .empty
  engines : Keyed String Nat := .empty
  gates : Keyed String Nat := .empty
  pools : Keyed String Nat := .empty
  handles : Keyed String Nat := .empty
  weaks : Keyed String WeakHandle := .empty
  jobs : Keyed String Nat := .empty

/-- The state of a session. -/
structure Session where
  store : Store := {}
  registers : Registers := {}
  /-- The threads by number: the main thread first, then jobs and workers as they were started. -/
  threads : List Thread := [{}]
  /-- The scripts by number, with the lists that are left. -/
  scripts : List (List (List Step)) := []
  /-- The holders shown so far, in the order in which they were first shown. -/
  shown : List Nat := []
  events : List Event := []
  logs : List Log := []
  issuedItems : Nat := 0
  issuedComponents : Nat := 0
  /-- A number beyond those of all props allocated so far. -/
  allocations : Nat := 0
  /-- Whether a command looked the shared pool up. -/
  namedShared : Bool := false

namespace Session

/-- The number of the main thread. -/
def mainThread : Nat := 0

/-- The name of the shared pool. -/
def sharedName : String := "shared"

/-- A session at its start. -/
def ofProgram (p : Program) : Session := { scripts := p.scripts, allocations := p.allocations }

/-! ## References -/

/-- How many handles, layout requests in progress and releases refer to a holder. -/
def references (s : Session) (h : Nat) : Nat :=
  s.registers.handles.entries.countP (·.2 = h) + s.threads.foldr (fun t n => t.references h + n) 0

/-- Whether a holder still exists. -/
def isAlive (s : Session) (h : Nat) : Bool := 0 < s.references h || s.store.isIdle h

/-- The holder a weak handle resolves to: the one it was made for, if it still exists and was not
released since. -/
def resolve? (s : Session) (w : WeakHandle) : Option Nat :=
  if s.isAlive w.holder && s.store.isOfGeneration w then some w.holder else none

/-! ## Looking registers up -/

/-- The value of a register that a command needs. `field` names the register in the command. -/
def need {α : Type} (field : String) (value : Option α) : Except Trouble α :=
  match value with
  | some a => .ok a
  | none => .error (.unknown field)

/-- A value that makes the field it comes from malformed if it is not there. -/
def expect {α : Type} (field : String) (value : Option α) : Except Trouble α :=
  match value with
  | some a => .ok a
  | none => .error (.malformed field)

/-- The component in a register. -/
def component (s : Session) (name : String) : Except Trouble Component :=
  need "component" (s.registers.components.get? name)

/-- A component on one side of a section's prop. -/
def sideComponent (s : Session) (name : String) : Except Trouble Component :=
  expect "diff" (s.registers.components.get? name)

/-- The descriptor in a register. -/
def item (s : Session) (name : String) : Except Trouble (Shared Descriptor) :=
  need "info" (s.registers.items.get? name)

/-- An executor that a policy refers to. -/
def executor (s : Session) (name : String) : Except Trouble Executor :=
  expect "handler" (s.registers.executors.get? name)

/-- Builds a policy whose executors are given by register. -/
def policy (s : Session) (settings : List (Policy.Setting String)) : Except Trouble Policy :=
  expect "handler" (Policy.build? (fun name => s.registers.executors.get? name) settings)

/-- The queue of an executor that carries its layouts out on demand. -/
def manualQueue (s : Session) (name : String) : Except Trouble Nat := do
  let e ← need "handler" (s.registers.executors.get? name)
  let q ← expect "handler" e.queue?
  let queue ← expect "handler" s.store.queues[q]?
  if queue.hasWorker then throw (.malformed "handler") else return q

/-- The engine in a register. -/
def engine (s : Session) (name : String) : Except Trouble Nat :=
  need "engine" (s.registers.engines.get? name)

/-- The gate in a register. -/
def gate (s : Session) (name : String) : Except Trouble Nat :=
  need "gate" (s.registers.gates.get? name)

/-- The pool a name stands for. -/
def pool (s : Session) (name : String) : Except Trouble Nat :=
  need "pool" (if name = sharedName then some Store.sharedPool else s.registers.pools.get? name)

/-- The holder that a handle register refers to. -/
def holder (s : Session) (name : String) : Except Trouble Nat :=
  need "handle" (s.registers.handles.get? name)

/-- The weak handle in a register. -/
def weakHandle (s : Session) (name : String) : Except Trouble WeakHandle :=
  need "weak" (s.registers.weaks.get? name)

/-- The thread of the command that was given to it under a name. -/
def job (s : Session) (name : String) : Except Trouble Nat :=
  need "job" (s.registers.jobs.get? name)

/-- The engine of a tree. -/
def treeEngine (s : Session) (name : String) : Except Trouble Nat :=
  need "tree" (s.registers.engines.get? name)

/-- A tree, by the register of its engine and its place, or the tree built last. -/
def treeRef (s : Session) (engine : String) (index : Option Nat) : Except Trouble TreeRef := do
  let e ← s.treeEngine engine
  let trees := (s.store.engines[e]?.map (·.trees)).getD []
  let i := index.getD (trees.length - 1)
  need "tree" (if i < trees.length then some ⟨e, i⟩ else none)

/-- Looks a register up and lets go of what is in it. -/
def check (s : Session) : Register → Except Trouble Unit
  | .component name => discard (s.component name)
  | .side name => discard (s.sideComponent name)
  | .item name => discard (s.item name)
  | .executor name => discard (s.executor name)
  | .manual name => discard (s.manualQueue name)
  | .engine name => discard (s.engine name)
  | .gate name => discard (s.gate name)
  | .pool name => discard (s.pool name)
  | .handle name => discard (s.holder name)
  | .weak name => discard (s.weakHandle name)
  | .job name => discard (s.job name)
  | .treesOf engine => discard (s.treeEngine engine)
  | .tree engine index => discard (s.treeRef engine index)

/-! ## Changing parts -/

/-- Changes the store. -/
def modifyStore (s : Session) (f : Store → Store) : Session := { s with store := f s.store }

/-- Changes the registers. -/
def modifyRegisters (s : Session) (f : Registers → Registers) : Session :=
  { s with registers := f s.registers }

/-- Changes a thread. -/
def modifyThread (s : Session) (i : Nat) (f : Thread → Thread) : Session :=
  { s with threads := s.threads.modify i f }

/-- Puts frames on a thread's stack. -/
def push (s : Session) (i : Nat) (frames : List Frame) : Session :=
  s.modifyThread i (·.push frames)

/-- Ends a command on a thread with a reply. -/
def answer (s : Session) (i : Nat) (r : Reply) : Session := s.modifyThread i (·.answer r)

/-- Ends a command on a thread as `f` does with the register to be filled. Without its name the
command is in trouble, but what it did before stays. -/
def fill (s : Session) (i : Nat) (into : Target) (f : String → Session) : Session :=
  match into with
  | some name => f name
  | none => s.answer i (.trouble (.malformed "as"))

/-- Panics on a thread. -/
def panic (s : Session) (i : Nat) (message : String) : Session :=
  s.modifyThread i (·.panic message)

/-- Writes log lines. -/
def write (s : Session) (lines : List Log) : Session := { s with logs := s.logs ++ lines }

/-- Reports an event. -/
def report (s : Session) (e : Event) : Session := { s with events := s.events ++ [e] }

/-- Fills a handle register. The holder that was in it is referred to once less. -/
def setHandle (s : Session) (name : String) (h : Nat) : Session :=
  s.modifyRegisters fun r => { r with handles := r.handles.put name h }

/-- Calls a script on a thread: its next list is run, if one is left. -/
def fire (s : Session) (i : Nat) (script : Option Nat) : Session :=
  match script with
  | none => s
  | some n =>
    match s.scripts[n]? with
    | some (steps :: rest) => { s with scripts := s.scripts.set n rest }.push i [.script steps]
    | _ => s

/-! ## Showing holders -/

/-- The number under which a holder is shown, and the session that remembers it. -/
def showHolder (s : Session) (h : Nat) : Session × Nat :=
  match s.shown.idxOf? h with
  | some n => (s, n)
  | none => ({ s with shown := s.shown ++ [h] }, s.shown.length)

/-- What a tree is shown as. -/
def treeName (s : Session) (t : TreeRef) : TreeName :=
  match s.registers.engines.entries.find? (·.2 = t.engine) with
  | some e => .known e.1 t.index
  | none => .unknown

/-- A holder as it is shown. -/
def view? (s : Session) (h : Nat) : Session × Option HolderView :=
  match s.store.holders[h]? with
  | none => (s, none)
  | some holder =>
    let (s, n) := s.showHolder h
    let state := holder.state
    (s, some {
      instanceNumber := n
      item := state.item
      valid := state.valid
      height := state.height
      requested := state.requested
      inserted := state.inserted
      mounted := state.mounted
      parked := state.slot.parked?.isSome
      tree := state.slot.tree?.map s.treeName
      progress := holder.progress
      laidOut := s.store.isLaidOut h })

/-- The pools as they are shown, the shared one only once it was looked up. -/
def viewPools (s : Session) : List PoolView :=
  let shared := if s.namedShared then [(sharedName, Store.sharedPool)] else []
  (s.registers.pools.entries ++ shared).filterMap fun e =>
    (s.store.pool? e.2).map fun p => { name := e.1, idle := p.idle.length, stats := p.stats }

end Session

end Recycler

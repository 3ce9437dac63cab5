import Recycler.Session.Engines
import Recycler.Session.Holders
import Recycler.Session.Items

/-!
# Carrying commands out

`perform` is the first step of every command. Most commands are at their end with it; a layout
request, or layouts that waited in a queue, leave frames on the thread that go on with them.

A command that cannot look its registers up changes nothing. One that lacks the name of the
register it is to fill has done its work by then.
-/

namespace Recycler

namespace Session

/-- The trouble with a malformed command: the one with the first of its registers that cannot be
looked up, or else the malformed field. -/
def blame (s : Session) (field : String) : List Register → Trouble
  | [] => .malformed field
  | r :: rest =>
    match s.check r with
    | .error trouble => trouble
    | .ok _ => s.blame field rest

/-! ## Executors -/

/-- Starts a thread with frames to carry on. -/
def start (s : Session) (frames : List Frame) : Session :=
  { s with threads := s.threads ++ [{ stack := frames }] }

/-- Makes an executor. A worker is a thread of its own. -/
def makeExecutor (s : Session) (i : Nat) (into : String) (style : Executor.Style) : Session :=
  let number := s.store.queues.length
  let register (s : Session) (e : Executor) : Session :=
    (s.modifyRegisters fun r => { r with executors := r.executors.put into e }).answer i .done
  let queued (hasWorker : Bool) : Session :=
    let queue : Queue := { name := into, hasWorker }
    s.modifyStore fun store => { store with queues := store.queues ++ [queue] }
  match style with
  | .inline => register s .inline
  | .manual => register (queued false) (.queue number)
  | .worker => register ((queued true).start [.serve number]) (.queue number)

/-- Begins to carry out the layouts that wait in a queue. -/
def runWaiting (s : Session) (i : Nat) (executor : String) (count : Option Nat) :
    Except Trouble Session := do
  let q ← s.manualQueue executor
  return s.push i [.runWaiting q count 0]

/-! ## Threads -/

/-- Starts a thread for a command. -/
def spawn (s : Session) (i : Nat) (c : Command) (into : Target) : Session :=
  let number := s.threads.length
  let s := s.start [.command c, .conclude]
  s.fill i into fun name =>
    (s.modifyRegisters fun r => { r with jobs := r.jobs.put name number }).answer i .done

/-- Replies how a started thread is doing. -/
def join (s : Session) (i : Nat) (job : String) : Except Trouble Session := do
  let j ← s.job job
  let thread ← need "job" s.threads[j]?
  return s.answer i (if thread.stack.isEmpty then .finished thread.reply else .running)

/-! ## Commands -/

/-- The first step of a command on a thread, or the trouble it is in. -/
def perform (s : Session) (i : Nat) : Command → Except Trouble Session
  | .component into name equivalence =>
    return (s.makeComponent into name equivalence).answer i .done
  | .item into source settings => s.makeItem i into source settings
  | .section component sticky spanSize fullSpan context into =>
    s.renderSection i component sticky spanSize fullSpan context into
  | .executor into style => return s.makeExecutor i into style
  | .runWaiting executor count => s.runWaiting i executor count
  | .engine into measure manner => return s.makeEngine i into measure manner
  | .onEngine engine c => s.performOnEngine i engine c
  | .gate into => return s.makeGate i into
  | .setGate gate engine => s.setGate i gate engine
  | .openGate gate => s.openGate i gate
  | .viewGate gate => s.viewGate i gate
  | .pool into capacity => return s.makePool i into capacity
  | .onPool pool c => s.performOnPool i pool c
  | .dropPool pool => return s.dropPool i pool
  | .acquire item settings factory pool into => s.acquire i item settings factory pool into
  | .layout bounds engine tag handle background =>
    s.requestLayout i bounds engine tag handle background
  | .onHolder handle c => s.performOnHolder i handle c
  | .dropHandle handle => return s.dropHandle i handle
  | .upgrade weak into => s.upgrade i weak into
  | .writeHeight weak height => s.writeHeight i weak height
  | .layoutTree bounds component props engine index background =>
    s.layoutTree i bounds component props engine index background
  | .onTree engine index c => s.performOnTree i engine index c
  | .spawn c into => return s.spawn i c into
  | .join job => s.join i job
  | .panic message => return s.panic i message
  | .malformed registers field => throw (s.blame field registers)

/-- Carries a command out on a thread. -/
def stepCommand (s : Session) (i : Nat) (c : Command) : Session :=
  match s.perform i c with
  | .ok s => s
  | .error trouble => s.answer i (.trouble trouble)

end Session

end Recycler

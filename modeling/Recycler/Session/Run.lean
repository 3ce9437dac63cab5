import Recycler.Session.Perform
import Recycler.Session.Workers

/-!
# Running sessions

`advance?` carries one thread on by one frame, if the thread can go on: a worker waits for
layouts, and a layout at a gate waits until the gate is open. A worker that nobody can hand layouts
to any more ends at once. `settle` carries threads on until none can go on, the current one as long
as it can. Each step of a session begins on the main
thread and is answered when all threads have settled.

A run of a program is bounded: no list of a script is run twice, and a command leads to a bounded
number of frames, with those of the layout it may hand over included.
-/

namespace Recycler

namespace Session

/-! ## One frame -/

/-- Carries a script on: its first step is carried out and reported. A panic among the steps is
one of the callback that runs the script. -/
def stepScript (s : Session) (i : Nat) : List Step → Session
  | [] => s
  | { command := .panic message, .. } :: _ => s.panic i message
  | step :: rest => s.push i [.command step.command, .report step.name, .script rest]

/-- Reports the reply to a step of a script. -/
def stepReport (s : Session) (i : Nat) (name : Option String) : Session :=
  match s.threads[i]? with
  | some thread => s.report (.step name thread.reply)
  | none => s

/-- Carries out the next of the layouts that wait in a queue, if one is left and the number of
layouts to be carried out is not reached. -/
def stepRunWaiting (s : Session) (i : Nat) (q : Nat) (remaining : Option Nat) (count : Nat) :
    Session :=
  if remaining = some 0 then s.answer i (.count count)
  else
    match s.store.dequeue q with
    | (_, none) => s.answer i (.count count)
    | (store, some l) =>
      { s with store := store }.push i
        [.layout l .background .enter, .runWaiting q (remaining.map (· - 1)) (count + 1)]

/-- Takes the next layout from a worker's queue. -/
def stepServe (s : Session) (i : Nat) (q : Nat) : Session :=
  match s.store.dequeue q with
  | (_, none) => s.push i [.serve q]
  | (store, some l) =>
    { s with store := store }.push i [.layout l .background .enter, .guard q, .serve q]

/-- Logs a panic of a worker's task. -/
def stepGuard (s : Session) (i : Nat) (q : Nat) : Session :=
  match s.threads[i]?, s.store.queues[q]? with
  | some { reply := .trouble (.panic _), .. }, some queue =>
    s.write [.taskPanicked queue.name]
  | _, _ => s

/-- Carries a frame on that was taken off the stack of a thread. -/
def stepFrame (s : Session) (i : Nat) : Frame → Session
  | .command c => s.stepCommand i c
  | .script steps => s.stepScript i steps
  | .report name => s.stepReport i name
  | .conclude => s
  | .openRequest call => s.stepOpenRequest i call
  | .factory factory handle => s.stepFactory i factory handle
  | .claimTree call item component handle listener =>
    s.stepClaimTree i call item component handle listener
  | .layout l sequel stage => s.stepLayout i l sequel stage
  | .confirm r => s.stepConfirm i r
  | .giveBack h => s.stepGiveBack i h
  | .runWaiting q remaining count => s.stepRunWaiting i q remaining count
  | .serve q => s.stepServe i q
  | .guard q => s.stepGuard i q

/-! ## Threads -/

/-- Whether a frame has to wait. -/
def isBlocked (s : Session) : Frame → Bool
  | .layout _ _ (.gate g) => !s.store.gates[g]?.any (·.isOpen)
  | .serve q => s.store.queues[q]?.all (·.waiting.isEmpty)
  | _ => false

/-- Carries a thread on by one frame, if it can go on. Workers that are of no more use end there. -/
def advance? (s : Session) (i : Nat) : Option Session :=
  match s.threads[i]? with
  | some { stack := frame :: rest, .. } =>
    if s.isBlocked frame then none
    else
      let next := (s.modifyThread i ({ · with stack := rest })).stepFrame i frame
      some (next.dismissSince s)
  | _ => none

/-- Carries on the current thread, or else the first one that can go on. -/
def advanceAny? (s : Session) (current : Nat) : Option (Session × Nat) :=
  (current :: List.range s.threads.length).findSome? fun i => (s.advance? i).map (·, i)

/-- Carries threads on until none can go on. -/
def settle : Nat → Session → Nat → Session
  | 0, s, _ => s
  | fuel + 1, s, current =>
    match s.advanceAny? current with
    | some (s, i) => settle fuel s i
    | none => s

/-! ## Steps -/

/-- Carries out one step of a session and answers it. -/
def runStep (fuel : Nat) (s : Session) (step : Step) : Session × Answer :=
  let s := { s with events := [], logs := [] }
  let s := (s.push mainThread [.command step.command, .conclude]).settle fuel mainThread
  let reply := (s.threads[mainThread]?.map (·.reply)).getD .done
  let (s, holder) := match step.handle.bind fun name => s.registers.handles.get? name with
    | some h => s.view? h
    | none => (s, none)
  (s, {
    reply, holder
    pools := if step.showsPools then some s.viewPools else none
    events := s.events
    logs := s.logs })

/-- Carries out steps one after the other. -/
def runSteps (fuel : Nat) (s : Session) : List Step → List Answer
  | [] => []
  | step :: rest =>
    let (s, answer) := s.runStep fuel step
    answer :: runSteps fuel s rest

end Session

namespace Program

/-- More frames than a command leads to, with those of a layout it may hand over. -/
def framesPerCommand : Nat := 32

/-- Runs a session from its start and answers each of its steps. -/
def run (p : Program) : List Answer :=
  (Session.ofProgram p).runSteps (framesPerCommand * (p.weight + 1)) p.steps

end Program

end Recycler

import Recycler.Session.Command
import Recycler.Session.Report

/-!
# Threads

A thread is a stack of frames, the one to be carried on with in front. A frame is work that was
begun and is not at its end: a command to be carried out, the rest of a script, a layout request
or a layout between two of its steps. Carrying a frame on takes it off the stack and may put
others in its place, so that a callback is simply a script on top of the work it was called from.

A panic takes frames off the stack up to the next one that stops it: the report of a script's
step, the end of a command, or the guard around a task of a worker.
-/

namespace Recycler

/-- What becomes of a layout's outcome. -/
inductive Sequel
  /-- It is committed to the holder that waits for it. -/
  | commit (request : Request)
  /-- Nobody waits for it. -/
  | background
  /-- It is the reply to the command that asked the tree for it. -/
  | reply
  deriving DecidableEq

/-- How far a layout has come. -/
inductive Stage
  | enter
  /-- At the gate of its engine. -/
  | gate (number : Nat)
  | measure
  | settle (size : Size)
  | notifyMeasured (size : Size) (listener : Option ReadyListener)
  | notifyReady (size : Size) (listener : Option ReadyListener)
  | deliver (outcome : Except Failure Size)

/-- Work that was begun and is not at its end. -/
inductive Frame
  /-- A command to be carried out. -/
  | command (command : Command)
  /-- The rest of a script. -/
  | script (steps : List Step)
  /-- The end of a script's step, which reports its reply. -/
  | report (step : Option String)
  /-- The end of a command that was given to a thread. -/
  | conclude
  /-- A layout request before its first step. -/
  | openRequest (call : Call)
  /-- A factory to be called. -/
  | factory (factory : Factory) (handle : WeakHandle)
  /-- A layout request between its first and its second step. -/
  | claimTree (call : Call) (item : Shared Descriptor) (component : Component)
      (handle : WeakHandle) (listener : Option MeasureListener)
  | layout (layout : Layout) (sequel : Sequel) (stage : Stage)
  /-- A request in the background before its last step. -/
  | confirm (request : Request)
  /-- A released holder to be offered back to its pool. -/
  | giveBack (holder : Nat)
  /-- The layouts that wait in a queue, to be carried out up to a number; some have been. -/
  | runWaiting (queue : Nat) (remaining : Option Nat) (count : Nat)
  /-- A worker that takes layouts from its queue for as long as it lasts. -/
  | serve (queue : Nat)
  /-- The end of a worker's task, which stops a panic and logs it. -/
  | guard (queue : Nat)

namespace Frame

/-- Whether a panic stops at a frame. -/
def stopsPanic : Frame → Bool
  | report _ => true
  | conclude => true
  | guard _ => true
  | _ => false

/-- The call that a frame carries out, if it is a layout request in progress. A request has one
such frame on the stack until it ends. -/
def call? : Frame → Option Call
  | openRequest call => some call
  | claimTree call .. => some call
  | layout _ (.commit request) _ => some request.call
  | confirm request => some request.call
  | _ => none

/-- The holder that a frame refers to: the one of the request, or the one to be given back. -/
def holder? : Frame → Option Nat
  | giveBack holder => some holder
  | f => f.call?.map (·.holder)

/-- The engine that a frame refers to: the one of the request. -/
def engine? (f : Frame) : Option Nat := f.call?.map (·.engine)

/-- The tree that a frame refers to: the one it lays out, or handed over to be laid out. -/
def tree? : Frame → Option TreeRef
  | layout l _ _ => some l.tree
  | confirm request => some request.tree
  | _ => none

/-- The queue whose worker is at a task as long as a frame is on its stack. -/
def busy? : Frame → Option Nat
  | guard queue => some queue
  | _ => none

/-- Whether a frame is a worker that waits for layouts in a queue. -/
def serves (queue : Nat) : Frame → Bool
  | serve q => q = queue
  | _ => false

end Frame

/-- A thread. -/
structure Thread where
  stack : List Frame := []
  /-- The reply to the command that ended last on this thread. -/
  reply : Reply := .done

namespace Thread

/-- The number of references to a holder: one for each layout request in progress, and one for a
release. -/
def references (t : Thread) (h : Nat) : Nat := t.stack.countP fun f => f.holder? = some h

/-- Puts frames on top of the stack, the first one in front. -/
def push (t : Thread) (frames : List Frame) : Thread := { t with stack := frames ++ t.stack }

/-- Ends a command with a reply. -/
def answer (t : Thread) (r : Reply) : Thread := { t with reply := r }

/-- Panics: takes frames off the stack up to the next one that stops a panic. -/
def panic (t : Thread) (message : String) : Thread where
  stack := t.stack.dropWhile fun f => !f.stopsPanic
  reply := .trouble (.panic message)

/-- Ends the worker of a queue, which waits for layouts. -/
def retire (queue : Nat) (t : Thread) : Thread :=
  { t with stack := t.stack.filter fun f => !f.serves queue }

end Thread

end Recycler

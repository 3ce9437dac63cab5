import Recycler.Log
import Recycler.Policy

/-!
# Tasks and their executors

A task is a sequence of effects: it writes marks, asks where it runs, hands further tasks to the
executor it was handed to, panics, or lets go of the executor. There is one executor, reached
through one handle; once the handle is let go of, nothing more can be handed over.

An inline executor carries a task out at the moment it is handed over, within the task that hands
it over, and a panic unwinds through all of them (`runInline`). The other executors keep tasks in
a queue, first in and first out, and a panic cuts off only the rest of its own task (`runQueued`,
`drain`). `size_runQueued` says that carrying out the first task of a queue makes what is left in
it smaller, so `drain` comes to its end.
-/

namespace Recycler

/-- A task that writes marks of type `α`: its effects in order. -/
inductive Task (α : Type)
  | done
  | mark (a : α) (rest : Task α)
  /-- Asks whether it runs where the tasks of the executor run. -/
  | askPlace (rest : Task α)
  | post (task rest : Task α)
  | panic (message : String)
  /-- Lets go of the executor. -/
  | close (rest : Task α)
  deriving DecidableEq

/-- What a task writes down. -/
inductive Task.Mark (α : Type)
  | own (a : α)
  /-- The answer to where it runs; none without an executor. -/
  | place (here : Option Bool)
  /-- Whether there was an executor to let go of. -/
  | closed (wasOpen : Bool)
  /-- There was no executor. -/
  | absent
  deriving DecidableEq

/-- What tasks leave behind, and the tasks that wait in the queue. -/
structure Task.Board (α : Type) where
  isOpen : Bool := true
  marks : List (Task.Mark α) := []
  /-- The number of tasks that were handed over. -/
  posted : Nat := 0
  waiting : List (Task α) := []
  deriving DecidableEq

namespace Task

variable {α : Type}

/-- The number of effects of a task, those of the tasks it hands over included. -/
def size : Task α → Nat
  | done => 1
  | mark _ rest => rest.size + 1
  | askPlace rest => rest.size + 1
  | post task rest => task.size + rest.size + 1
  | panic _ => 1
  | close rest => rest.size + 1

/-- The number of effects of several tasks. -/
def total : List (Task α) → Nat
  | [] => 0
  | t :: ts => t.size + total ts

@[simp] theorem total_nil : total ([] : List (Task α)) = 0 := rfl

theorem total_cons (t : Task α) (ts : List (Task α)) : total (t :: ts) = t.size + total ts := rfl

theorem total_append (ts us : List (Task α)) : total (ts ++ us) = total ts + total us := by
  induction ts with
  | nil => simp
  | cons t ts ih => rw [List.cons_append, total_cons, total_cons, ih, Nat.add_assoc]

namespace Board

/-- Writes a mark. -/
def write (b : Board α) (m : Mark α) : Board α := { b with marks := b.marks ++ [m] }

/-- Writes where a task runs: `here` if there is an executor. -/
def writePlace (b : Board α) (here : Bool) : Board α :=
  if b.isOpen then b.write (.place (some here)) else (b.write .absent).write (.place none)

/-- Lets go of the executor. -/
def close (b : Board α) : Board α := { b.write (.closed b.isOpen) with isOpen := false }

/-- Counts a task that is handed over. -/
def count (b : Board α) : Board α := { b with posted := b.posted + 1 }

/-- Hands a task over to the queue, if there is still an executor. -/
def enqueue (b : Board α) (t : Task α) : Board α :=
  if b.isOpen then { b.count with waiting := b.waiting ++ [t] } else b.write .absent

/-- The number of effects of all tasks that wait. -/
def size (b : Board α) : Nat := total b.waiting

@[simp] theorem size_write (b : Board α) (m : Mark α) : (b.write m).size = b.size := rfl

@[simp] theorem size_writePlace (b : Board α) (here : Bool) :
    (b.writePlace here).size = b.size := by
  unfold writePlace
  split <;> rfl

@[simp] theorem size_close (b : Board α) : b.close.size = b.size := rfl

theorem size_enqueue_le (b : Board α) (t : Task α) : (b.enqueue t).size ≤ b.size + t.size := by
  unfold enqueue
  split
  · simp [size, total_append, total_cons]
  · exact Nat.le_add_right ..

end Board

/-! ## At once -/

/-- Carries a task out on an inline executor, to its end or to the panic that unwound it. -/
def runInline : Task α → Board α → Board α × Option String
  | done, b => (b, none)
  | mark a rest, b => runInline rest (b.write (.own a))
  | askPlace rest, b => runInline rest (b.writePlace true)
  | post task rest, b =>
    if b.isOpen then
      match runInline task b.count with
      | (b, some message) => (b, some message)
      | (b, none) => runInline rest b
    else runInline rest (b.write .absent)
  | panic message, b => (b, some message)
  | close rest, b => runInline rest b.close

/-! ## In a queue -/

/-- Carries a task out whose posts go to the queue, to its end or to the panic that cut it off.
`here` is what it is told about where it runs. -/
def runQueued (here : Bool) : Task α → Board α → Board α × Option String
  | done, b => (b, none)
  | mark a rest, b => runQueued here rest (b.write (.own a))
  | askPlace rest, b => runQueued here rest (b.writePlace here)
  | post task rest, b => runQueued here rest (b.enqueue task)
  | panic message, b => (b, some message)
  | close rest, b => runQueued here rest b.close

/-- Carrying a task out puts fewer effects into the queue than the task has. -/
theorem size_runQueued (here : Bool) (t : Task α) (b : Board α) :
    (runQueued here t b).1.size < b.size + t.size := by
  induction t generalizing b with
  | done => simp [runQueued, size]
  | mark a rest ih =>
      have h := ih (b.write (.own a))
      simp only [runQueued, size, Board.size_write] at h ⊢
      omega
  | askPlace rest ih =>
      have h := ih (b.writePlace here)
      simp only [runQueued, size, Board.size_writePlace] at h ⊢
      omega
  | post task rest _ ih =>
      have h := ih (b.enqueue task)
      have hle := b.size_enqueue_le task
      simp only [runQueued, size] at h ⊢
      omega
  | panic message => simp [runQueued, size]
  | close rest ih =>
      have h := ih b.close
      simp only [runQueued, size, Board.size_close] at h ⊢
      omega

/-- Carries out the tasks that wait, and those they hand over, until none is left. Beside the board
it yields the panics, in order. -/
def drain (here : Bool) (b : Board α) : Board α × List String :=
  match hb : b.waiting with
  | [] => (b, [])
  | t :: rest =>
    match hr : runQueued here t { b with waiting := rest } with
    | (b', cut) =>
      have : b'.size < b.size := by
        have h := size_runQueued here t { b with waiting := rest }
        rw [hr] at h
        simp only [Board.size, hb, total_cons] at h ⊢
        omega
      let (final, panics) := drain here b'
      (final, cut.toList ++ panics)
termination_by b.size

/-! ## Runs -/

/-- What is left of a run. -/
structure Outcome (α : Type) where
  marks : List (Mark α)
  /-- The panics as whoever hands tasks over, or has them carried out, gets to know them: an entry
  for each task handed over from outside, then those of tasks carried out later. -/
  panics : List (Option String)
  posted : Nat
  logs : List Log
  deriving DecidableEq

/-- Hands tasks over to an inline executor from outside, one after the other. -/
def handInline : List (Task α) → Board α → Board α × List (Option String)
  | [], b => (b, [])
  | t :: rest, b =>
    let (b, cut) := if b.isOpen then runInline t b.count else (b.write .absent, none)
    let (b, panics) := handInline rest b
    (b, cut :: panics)

/-- A board with tasks that were handed over from outside before the first one ran. `closes` says
whether the executor was let go of then. -/
def queued (closes : Bool) (tasks : List (Task α)) : Board α :=
  { isOpen := !closes, posted := tasks.length, waiting := tasks }

/-- Runs tasks on an executor. A worker logs the panics of its tasks, and at last that it exits. -/
def run (style : Executor.Style) (name : String) (closes : Bool) (tasks : List (Task α)) :
    Outcome α :=
  match style with
  | .inline =>
    let (b, panics) := handInline tasks {}
    { marks := b.marks, panics, posted := b.posted, logs := [] }
  | .manual =>
    let (b, panics) := drain false (queued closes tasks)
    { marks := b.marks, posted := b.posted, logs := []
      panics := tasks.map (fun _ => none) ++ panics.map some }
  | .worker =>
    let (b, panics) := drain true (queued closes tasks)
    { marks := b.marks, posted := b.posted
      panics := tasks.map fun _ => none
      logs := panics.map (fun _ => .taskPanicked name) ++ [.exiting name] }

end Task

end Recycler

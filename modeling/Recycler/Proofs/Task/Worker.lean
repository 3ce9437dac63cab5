import Mathlib.Data.List.Induction
import Recycler.Task

/-!
# A worker at its queue

A worker carries out the tasks of its queue while others go on handing tasks over, and exits once
the executor was let go of and the queue is empty. `History.next?` is one moment of such a run:
somebody outside hands a task over or lets go of the executor, or the worker goes on by one deed.
Everything may happen between two deeds, so a history is any interleaving.

Whatever the tasks do, the worker does them in the order in which they were handed over, one at a
time and each to its end or to its panic, and exits after the last one (`orderly_of_history`).
-/

namespace Recycler.Task

variable {α : Type}

/-! ## The effects of a task -/

/-- One effect of a task. -/
inductive Effect (α : Type)
  | mark (a : α)
  | askPlace
  | post (task : Task α)
  | panic (message : String)
  | close
  deriving DecidableEq

/-- The effects of a task in order. A panic is the last one. -/
def effects : Task α → List (Effect α)
  | done => []
  | mark a rest => .mark a :: rest.effects
  | askPlace rest => .askPlace :: rest.effects
  | post task rest => .post task :: rest.effects
  | panic message => [.panic message]
  | close rest => .close :: rest.effects

namespace Effect

/-- Carries an effect out where tasks are handed over to a queue. -/
def carryOut (b : Board α) : Effect α → Board α
  | mark a => b.write (.own a)
  | askPlace => b.writePlace true
  | post task => b.enqueue task
  | panic _ => b
  | close => b.close

/-- The task that an effect puts into the queue. -/
def handed (b : Board α) : Effect α → List (Task α)
  | post task => if b.isOpen then [task] else []
  | _ => []

/-- An upper bound of the deeds it takes to carry out an effect and the task that it hands over. -/
def weight : Effect α → Nat
  | post task => 2 * task.size + 1
  | _ => 1

/-- An upper bound of the deeds it takes to carry out several effects. -/
def total (es : List (Effect α)) : Nat := es.foldr (fun e n => e.weight + n) 0

theorem total_nil : total ([] : List (Effect α)) = 0 := rfl

theorem total_cons (e : Effect α) (es : List (Effect α)) :
    total (e :: es) = e.weight + total es := rfl

variable (e : Effect α) (b : Board α)

theorem waiting_carryOut : (e.carryOut b).waiting = b.waiting ++ e.handed b := by
  cases e with
  | post task =>
      rw [carryOut, Board.enqueue, handed]
      split
      · rfl
      · exact (List.append_nil _).symm
  | askPlace =>
      rw [carryOut, Board.writePlace]
      split <;> exact (List.append_nil _).symm
  | mark | panic | close => exact (List.append_nil _).symm

theorem posted_carryOut : (e.carryOut b).posted = b.posted + (e.handed b).length := by
  cases e with
  | post task =>
      rw [carryOut, Board.enqueue, handed]
      split <;> rfl
  | askPlace =>
      rw [carryOut, Board.writePlace]
      split <;> rfl
  | mark | panic | close => rfl

theorem isOpen_carryOut_of_closed (h : b.isOpen = false) : (e.carryOut b).isOpen = false := by
  cases e with
  | post task => rw [carryOut, Board.enqueue, h]; exact h
  | askPlace => rw [carryOut, Board.writePlace, h]; exact h
  | mark | panic => exact h
  | close => rfl

theorem size_carryOut_lt : 2 * (e.carryOut b).size < 2 * b.size + e.weight := by
  cases e with
  | post task =>
      have h := b.size_enqueue_le task
      rw [carryOut, weight]
      omega
  | askPlace => rw [carryOut, Board.size_writePlace]; exact Nat.lt_add_one _
  | mark | panic | close => exact Nat.lt_add_one _

end Effect

/-- Carrying out the effects of a task takes less than twice as many deeds as it has effects. -/
theorem weight_effects_lt (t : Task α) : Effect.total t.effects < 2 * t.size := by
  induction t with
  | done | panic _ => simp [effects, size, Effect.total_nil, Effect.total_cons, Effect.weight]
  | mark _ _ ih | askPlace _ ih | close _ ih | post _ _ _ ih =>
      simp only [effects, size, Effect.total_cons, Effect.weight]
      omega

/-! ## Deeds -/

/-- What a worker does. -/
inductive Deed (α : Type)
  /-- It takes the next task from the queue. -/
  | take (task : Task α)
  /-- It carries an effect of its task out. -/
  | carry (e : Effect α)
  | exit
  deriving DecidableEq

namespace Deed

/-- The task that is taken. -/
def task? : Deed α → Option (Task α)
  | take task => some task
  | _ => none

/-- The mark that a task writes of its own. -/
def mark? : Deed α → Option α
  | carry (.mark a) => some a
  | _ => none

/-- The line that is logged: one for a panic, one for the exit. -/
def log? (name : String) : Deed α → Option Log
  | carry (.panic _) => some (.taskPanicked name)
  | exit => some (.exiting name)
  | _ => none

end Deed

/-- The mark that a task wrote of its own. -/
def Mark.own? : Mark α → Option α
  | own a => some a
  | _ => none

theorem own?_marks_carryOut (e : Effect α) (b : Board α) :
    (e.carryOut b).marks.filterMap Mark.own? =
      b.marks.filterMap Mark.own? ++ (Deed.carry e).mark?.toList := by
  cases e with
  | post task =>
      rw [Effect.carryOut, Board.enqueue]
      split <;> simp [Board.count, Board.write, Mark.own?, Deed.mark?]
  | askPlace =>
      rw [Effect.carryOut, Board.writePlace]
      split <;> simp [Board.write, Mark.own?, Deed.mark?]
  | mark a => simp [Effect.carryOut, Board.write, Mark.own?, Deed.mark?]
  | panic => simp [Effect.carryOut, Deed.mark?]
  | close => simp [Effect.carryOut, Board.close, Board.write, Mark.own?, Deed.mark?]

/-- What a worker does for a task: it takes the task and carries its effects out. -/
def script (t : Task α) : List (Deed α) := .take t :: t.effects.map .carry

/-! ## Moments -/

/-- A worker, the board it works at, and what is left of the task that it is at. -/
structure Worker (α : Type) where
  board : Board α := {}
  left : List (Effect α) := []
  logs : List Log := []
  exited : Bool := false
  deriving DecidableEq

/-- What may happen next. -/
inductive Moment (α : Type)
  /-- Somebody outside hands a task over. -/
  | post (task : Task α)
  /-- The handle outside, which was the last one, is let go of. -/
  | close
  /-- The worker goes on. -/
  | work
  deriving DecidableEq

/-- The task that is handed over from outside. -/
def Moment.task? : Moment α → Option (Task α)
  | post task => some task
  | _ => none

namespace Worker

/-- What the worker does next. Without a task and with nothing in the queue it waits as long as
somebody may still hand a task over. -/
def deed? (w : Worker α) : Option (Deed α) :=
  match w.left, w.board.waiting with
  | e :: _, _ => some (.carry e)
  | [], t :: _ => some (.take t)
  | [], [] => if w.board.isOpen || w.exited then none else some .exit

/-- The worker after a deed. -/
def perform (name : String) (w : Worker α) (d : Deed α) : Worker α :=
  let w := { w with logs := w.logs ++ (d.log? name).toList }
  match d with
  | .take t => { w with board.waiting := w.board.waiting.tail, left := t.effects }
  | .carry e => { w with board := e.carryOut w.board, left := w.left.tail }
  | .exit => { w with exited := true }

/-- The worker after a moment, if that moment can come: nobody outside can hand over anything, or
let go of the executor, after it was let go of. -/
def next? (name : String) (w : Worker α) : Moment α → Option (Worker α)
  | .post t => if w.board.isOpen then some { w with board := w.board.enqueue t } else none
  | .close => if w.board.isOpen then some { w with board.isOpen := false } else none
  | .work => w.deed?.map (w.perform name)

/-- The tasks that reach the queue in a moment. -/
def handed (w : Worker α) : Moment α → List (Task α)
  | .post t => [t]
  | .close => []
  | .work =>
    match w.left with
    | e :: _ => e.handed w.board
    | [] => []

/-- What the worker does in a moment. -/
def deeds (w : Worker α) : Moment α → List (Deed α)
  | .work => w.deed?.toList
  | _ => []

/-- An upper bound of the deeds that are left to do. -/
def toil (w : Worker α) : Nat :=
  Effect.total w.left + 2 * w.board.size + if w.exited then 0 else 1

end Worker

/-- A worker with its history: the tasks that reached its queue, and what it has done. -/
structure History (α : Type) where
  worker : Worker α := {}
  handed : List (Task α) := []
  deeds : List (Deed α) := []
  deriving DecidableEq

namespace History

/-- The history after a moment. -/
def next? (name : String) (h : History α) (m : Moment α) : Option (History α) :=
  (h.worker.next? name m).map fun w =>
    { worker := w, handed := h.handed ++ h.worker.handed m, deeds := h.deeds ++ h.worker.deeds m }

/-- The history after some moments. -/
def follow? (name : String) (h : History α) (ms : List (Moment α)) : Option (History α) :=
  ms.foldlM (next? name) h

/-- The tasks that were taken from the queue. -/
def taken (h : History α) : List (Task α) := h.deeds.filterMap Deed.task?

variable {name : String} {h h' : History α} {m : Moment α} {ms ms' : List (Moment α)}

/-- Everything that can happen in a moment. -/
theorem cases_of_next? (hm : h.next? name m = some h') :
    (∃ t, m = .post t ∧ h.worker.board.isOpen = true ∧ h' = { h with
      worker.board := h.worker.board.enqueue t
      handed := h.handed ++ [t] }) ∨
    (m = .close ∧ h.worker.board.isOpen = true ∧ h' = { h with
      worker.board.isOpen := false }) ∨
    (∃ e rest, m = .work ∧ h.worker.left = e :: rest ∧ h' = {
      worker := { h.worker with
        board := e.carryOut h.worker.board
        left := rest
        logs := h.worker.logs ++ ((Deed.carry e).log? name).toList }
      handed := h.handed ++ e.handed h.worker.board
      deeds := h.deeds ++ [.carry e] }) ∨
    (∃ t ts, m = .work ∧ h.worker.left = [] ∧ h.worker.board.waiting = t :: ts ∧ h' = { h with
      worker.board.waiting := ts
      worker.left := t.effects
      deeds := h.deeds ++ [.take t] }) ∨
    (m = .work ∧ h.worker.left = [] ∧ h.worker.board.waiting = [] ∧
      h.worker.board.isOpen = false ∧ h.worker.exited = false ∧ h' = { h with
        worker.logs := h.worker.logs ++ [.exiting name]
        worker.exited := true
        deeds := h.deeds ++ [.exit] }) := by
  obtain ⟨w, hw, rfl⟩ := Option.map_eq_some_iff.1 hm
  cases m with
  | post t =>
      rw [Worker.next?] at hw
      split at hw
      · next hopen =>
          obtain rfl := Option.some.inj hw
          exact .inl ⟨t, rfl, hopen, by simp [Worker.handed, Worker.deeds]⟩
      · cases hw
  | close =>
      rw [Worker.next?] at hw
      split at hw
      · next hopen =>
          obtain rfl := Option.some.inj hw
          exact .inr (.inl ⟨rfl, hopen, by simp [Worker.handed, Worker.deeds]⟩)
      · cases hw
  | work =>
      obtain ⟨d, hd, rfl⟩ := Option.map_eq_some_iff.1 hw
      refine .inr (.inr ?_)
      cases hleft : h.worker.left with
      | cons e rest =>
          have : d = .carry e := by
            rw [Worker.deed?, hleft] at hd
            exact (Option.some.inj hd).symm
          subst this
          exact .inl ⟨e, rest, rfl, rfl, by
            simp [Worker.perform, Worker.deeds, Worker.handed, hd, hleft]⟩
      | nil =>
          cases hwaiting : h.worker.board.waiting with
          | cons t ts =>
              have : d = .take t := by
                rw [Worker.deed?, hleft, hwaiting] at hd
                exact (Option.some.inj hd).symm
              subst this
              exact .inr (.inl ⟨t, ts, rfl, rfl, rfl, by
                simp [Worker.perform, Worker.deeds, Worker.handed, Deed.log?, hd, hleft, hwaiting]⟩)
          | nil =>
              have hexit := hd
              rw [Worker.deed?, hleft, hwaiting] at hexit
              dsimp only at hexit
              split at hexit
              · cases hexit
              · next hclosed =>
                  obtain rfl := Option.some.inj hexit
                  rw [Bool.or_eq_true, not_or, Bool.not_eq_true, Bool.not_eq_true] at hclosed
                  exact .inr (.inr ⟨rfl, rfl, rfl, hclosed.1, hclosed.2, by
                    simp [Worker.perform, Worker.deeds, Worker.handed, Deed.log?, hd, hleft]⟩)

/-! ## In order -/

/-- What holds of every history. -/
structure Orderly (name : String) (h : History α) : Prop where
  /-- The tasks that were taken are the first ones that reached the queue, and the others wait. -/
  queue : h.handed = h.taken ++ h.worker.board.waiting
  /-- The worker did what the tasks that were taken ask for, one task after the other, but for what
  is left of the last one. The exit comes after all of them. -/
  scripts : h.deeds ++ h.worker.left.map .carry =
    h.taken.flatMap script ++ if h.worker.exited then [.exit] else []
  logs : h.worker.logs = h.deeds.filterMap (Deed.log? name)
  marks : h.worker.board.marks.filterMap Mark.own? = h.deeds.filterMap Deed.mark?
  posted : h.worker.board.posted = h.handed.length
  exit : h.worker.exited = true →
    h.worker.board.isOpen = false ∧ h.worker.left = [] ∧ h.worker.board.waiting = []

theorem orderly_start : Orderly name ({} : History α) where
  queue := rfl
  scripts := rfl
  logs := rfl
  marks := rfl
  posted := rfl
  exit := nofun

theorem taken_concat (d : Deed α) (hd : d.task? = none) :
    (h.deeds ++ [d]).filterMap Deed.task? = h.taken := by
  rw [List.filterMap_append, List.filterMap_cons_none hd]
  exact List.append_nil _

theorem Orderly.next? (ho : h.Orderly name) (hm : h.next? name m = some h') : h'.Orderly name := by
  obtain ⟨hqueue, hscripts, hlogs, hmarks, hposted, hexit⟩ := ho
  obtain ⟨t, rfl, hopen, rfl⟩ | ⟨rfl, hopen, rfl⟩ | ⟨e, rest, rfl, hleft, rfl⟩ |
    ⟨t, ts, rfl, hleft, hwaiting, rfl⟩ | ⟨rfl, hleft, hwaiting, hclosed, hexited, rfl⟩ :=
    cases_of_next? hm
  · -- A task is handed over from outside.
    have henqueue : h.worker.board.enqueue t =
        { h.worker.board.count with waiting := h.worker.board.waiting ++ [t] } := if_pos hopen
    rw [henqueue]
    refine ⟨?_, hscripts, hlogs, hmarks, ?_, fun hx => ?_⟩
    · exact (congrArg (· ++ [t]) hqueue).trans (List.append_assoc ..)
    · rw [List.length_append, ← hposted]
      rfl
    · rw [(hexit hx).1] at hopen
      cases hopen
  · -- The executor is let go of from outside.
    refine ⟨hqueue, hscripts, hlogs, hmarks, hposted, fun hx => ?_⟩
    rw [(hexit hx).1] at hopen
    cases hopen
  · -- An effect is carried out.
    have htaken := h.taken_concat (.carry e) rfl
    refine ⟨?_, ?_, ?_, ?_, ?_, fun hx => ?_⟩
    · rw [taken, htaken, Effect.waiting_carryOut, hqueue, List.append_assoc]
    · rw [taken, htaken, ← hscripts, hleft, List.append_assoc]
      rfl
    · rw [List.filterMap_append, hlogs]
      rfl
    · rw [List.filterMap_append, own?_marks_carryOut, hmarks]
      rfl
    · rw [Effect.posted_carryOut, hposted, List.length_append]
    · rw [(hexit hx).2.1] at hleft
      cases hleft
  · -- The next task is taken.
    have hexited : h.worker.exited = false := by
      rw [← Bool.not_eq_true]
      intro hx
      rw [(hexit hx).2.2] at hwaiting
      cases hwaiting
    have htaken : (h.deeds ++ [Deed.take t]).filterMap Deed.task? = h.taken ++ [t] :=
      List.filterMap_append
    rw [hleft, hexited] at hscripts
    refine ⟨?_, ?_, ?_, ?_, hposted, fun hx => ?_⟩
    · rw [taken, htaken, hqueue, hwaiting, List.append_assoc]
      rfl
    · rw [taken, htaken, hexited, List.flatMap_append, List.append_assoc, ← List.append_nil h.deeds]
      exact (congrArg (· ++ script t) hscripts).trans (by simp)
    · rw [List.filterMap_append, hlogs]
      exact (List.append_nil _).symm
    · rw [List.filterMap_append, hmarks]
      exact (List.append_nil _).symm
    · rw [hexited] at hx
      cases hx
  · -- The worker exits.
    have htaken := h.taken_concat .exit rfl
    rw [hleft, hexited] at hscripts
    refine ⟨?_, ?_, ?_, ?_, hposted, fun _ => ⟨hclosed, hleft, hwaiting⟩⟩
    · rw [taken, htaken, hqueue]
    · rw [taken, htaken, hleft]
      simpa using hscripts
    · rw [List.filterMap_append, hlogs]
      rfl
    · rw [List.filterMap_append, hmarks]
      exact (List.append_nil _).symm

theorem follow?_cons : h.follow? name (m :: ms) = (h.next? name m).bind (·.follow? name ms) := rfl

theorem follow?_append :
    h.follow? name (ms ++ ms') = (h.follow? name ms).bind (·.follow? name ms') :=
  List.foldlM_append ..

/-- What a moment preserves holds after any number of them. -/
theorem follow?_induction {P : List (Moment α) → History α → Prop} (hstart : P [] {})
    (hnext : ∀ {ms m h h'}, ({} : History α).follow? name ms = some h → P ms h →
      h.next? name m = some h' → P (ms ++ [m]) h')
    (hrun : ({} : History α).follow? name ms = some h) : P ms h := by
  induction ms using List.reverseRecOn generalizing h with
  | nil =>
      obtain rfl := Option.some.inj hrun
      exact hstart
  | append_singleton ms m ih =>
      rw [follow?_append] at hrun
      obtain ⟨before, hms, hlast⟩ := Option.bind_eq_some_iff.1 hrun
      rw [follow?_cons] at hlast
      obtain ⟨after, hm, hafter⟩ := Option.bind_eq_some_iff.1 hlast
      obtain rfl := Option.some.inj hafter
      exact hnext hms (ih hms) hm

theorem orderly_of_follow? (hrun : ({} : History α).follow? name ms = some h) : h.Orderly name :=
  follow?_induction (P := fun _ h => h.Orderly name) orderly_start (fun _ ho hm => ho.next? hm) hrun

/-! ## To the end -/

/-- A deed leaves less to do; only tasks from outside add to it. -/
theorem toil_next? (hm : h.next? name m = some h') :
    h'.deeds.length + h'.worker.toil ≤
      h.deeds.length + h.worker.toil + 2 * total m.task?.toList := by
  obtain ⟨t, rfl, hopen, rfl⟩ | ⟨rfl, hopen, rfl⟩ | ⟨e, rest, rfl, hleft, rfl⟩ |
    ⟨t, ts, rfl, hleft, hwaiting, rfl⟩ | ⟨rfl, hleft, hwaiting, hclosed, hexited, rfl⟩ :=
    cases_of_next? hm
  · have hle := h.worker.board.size_enqueue_le t
    simp only [Worker.toil, Moment.task?, Option.toList_some, total_cons, total_nil]
    omega
  · exact Nat.le_add_right ..
  · have hlt := e.size_carryOut_lt h.worker.board
    simp only [Worker.toil, hleft, Effect.total_cons, List.length_append, List.length_singleton]
    omega
  · have hlt := t.weight_effects_lt
    simp only [Worker.toil, Board.size, hleft, hwaiting, total_cons, List.length_append,
      List.length_singleton, Effect.total_nil]
    omega
  · simp only [Worker.toil, hexited, List.length_append, List.length_singleton]
    simp only [Bool.false_eq_true, if_false, if_true]
    omega

theorem length_deeds_next?_work (hm : h.next? name .work = some h') :
    h'.deeds.length = h.deeds.length + 1 := by
  obtain ⟨t, ⟨⟩, -⟩ | ⟨⟨⟩, -⟩ | ⟨e, rest, -, -, rfl⟩ | ⟨t, ts, -, -, -, rfl⟩ |
    ⟨-, -, -, -, -, rfl⟩ := cases_of_next? hm
  all_goals exact List.length_append

/-- A worker does at most twice as much as the tasks from outside, and those they hand over, have
effects, and exits. -/
theorem toil_of_follow? (hrun : ({} : History α).follow? name ms = some h) :
    h.deeds.length + h.worker.toil ≤ 2 * total (ms.filterMap Moment.task?) + 1 := by
  refine follow?_induction
    (P := fun ms h => h.deeds.length + h.worker.toil ≤ 2 * total (ms.filterMap Moment.task?) + 1)
    (Nat.le_refl 1) (fun {ms m h h'} _ ih hm => ?_) hrun
  have hle := toil_next? hm
  have htotal : total ((ms ++ [m]).filterMap Moment.task?) =
      total (ms.filterMap Moment.task?) + total m.task?.toList := by
    rw [List.filterMap_append, total_append]
    cases m <;> rfl
  omega

theorem isOpen_next?_of_closed (hclosed : h.worker.board.isOpen = false)
    (hm : h.next? name m = some h') : h'.worker.board.isOpen = false := by
  obtain ⟨t, rfl, hopen, rfl⟩ | ⟨rfl, hopen, rfl⟩ | ⟨e, rest, rfl, hleft, rfl⟩ |
    ⟨t, ts, rfl, hleft, hwaiting, rfl⟩ | ⟨rfl, hleft, hwaiting, -, hexited, rfl⟩ :=
    cases_of_next? hm
  · rw [hclosed] at hopen
    cases hopen
  · rfl
  · exact e.isOpen_carryOut_of_closed _ hclosed
  · exact hclosed
  · exact hclosed

/-- Once the executor was let go of the worker goes on until it exits. -/
theorem exists_next?_work (name : String) (hclosed : h.worker.board.isOpen = false)
    (hx : h.worker.exited = false) : ∃ h', h.next? name .work = some h' := by
  have hdeed : ∃ d, h.worker.deed? = some d := by
    rw [Worker.deed?]
    split
    · exact ⟨_, rfl⟩
    · exact ⟨_, rfl⟩
    · rw [hclosed, hx]
      exact ⟨_, rfl⟩
  obtain ⟨d, hd⟩ := hdeed
  rw [next?, Worker.next?, hd]
  exact ⟨_, rfl⟩

/-- There is a next moment until the worker has exited. -/
theorem forall_next?_eq_none_iff (ho : h.Orderly name) :
    (∀ m, h.next? name m = none) ↔ h.worker.exited = true := by
  refine ⟨fun hnone => ?_, fun hx m => ?_⟩
  · by_contra hx
    cases hopen : h.worker.board.isOpen with
    | true =>
        have hclose := hnone .close
        rw [next?, Worker.next?, if_pos hopen] at hclose
        cases hclose
    | false =>
        obtain ⟨h', hwork⟩ := exists_next?_work name hopen (Bool.not_eq_true _ ▸ hx)
        rw [hnone .work] at hwork
        cases hwork
  · obtain ⟨hclosed, hleft, hwaiting⟩ := ho.exit hx
    cases hm : h.next? name m with
    | none => rfl
    | some h' =>
        obtain ⟨t, rfl, hopen, rfl⟩ | ⟨rfl, hopen, rfl⟩ | ⟨e, rest, rfl, hleft', rfl⟩ |
          ⟨t, ts, rfl, -, hwaiting', rfl⟩ | ⟨rfl, -, -, -, hexited, rfl⟩ := cases_of_next? hm
        · rw [hclosed] at hopen; cases hopen
        · rw [hclosed] at hopen; cases hopen
        · rw [hleft] at hleft'; cases hleft'
        · rw [hwaiting] at hwaiting'; cases hwaiting'
        · rw [hx] at hexited; cases hexited

/-- The worker goes from one history to another on its own. -/
def Works (name : String) (h h' : History α) : Prop :=
  ∃ n, h.follow? name (.replicate n .work) = some h'

theorem Works.refl (name : String) (h : History α) : Works name h h := ⟨0, rfl⟩

theorem Works.head {h₁ h₂ h₃ : History α} (h₁₂ : h₁.next? name .work = some h₂)
    (h₂₃ : Works name h₂ h₃) : Works name h₁ h₃ := by
  obtain ⟨n, hn⟩ := h₂₃
  refine ⟨n + 1, ?_⟩
  rw [List.replicate_succ, follow?_cons, h₁₂]
  exact hn

theorem Works.trans {h₁ h₂ h₃ : History α} (h₁₂ : Works name h₁ h₂) (h₂₃ : Works name h₂ h₃) :
    Works name h₁ h₃ := by
  obtain ⟨n, hn⟩ := h₁₂
  obtain ⟨k, hk⟩ := h₂₃
  refine ⟨n + k, ?_⟩
  rw [← List.replicate_append_replicate, follow?_append, hn]
  exact hk

/-- Once the executor was let go of the worker comes to its exit on its own. -/
theorem exists_works_exited (hclosed : h.worker.board.isOpen = false) :
    ∃ h', Works name h h' ∧ h'.worker.exited = true := by
  generalize htoil : h.worker.toil = n
  induction n using Nat.strongRecOn generalizing h with
  | ind n ih =>
      cases hx : h.worker.exited with
      | true => exact ⟨h, .refl name h, hx⟩
      | false =>
          obtain ⟨between, hwork⟩ := exists_next?_work name hclosed hx
          have hlt : between.worker.toil < n := by
            have hle := toil_next? hwork
            have hnone : total (Moment.work : Moment α).task?.toList = 0 := rfl
            rw [length_deeds_next?_work hwork] at hle
            omega
          obtain ⟨h', hworks, hexited⟩ := ih _ hlt (isOpen_next?_of_closed hclosed hwork) rfl
          exact ⟨h', .head hwork hworks, hexited⟩

/-! ## A run that was handed everything at first -/

theorem exists_next?_carry (name : String) {e : Effect α} {rest : List (Effect α)}
    (hleft : h.worker.left = e :: rest) :
    ∃ h', h.next? name .work = some h' ∧ h'.worker = { h.worker with
      board := e.carryOut h.worker.board
      left := rest
      logs := h.worker.logs ++ ((Deed.carry e).log? name).toList } := by
  have hdeed : h.worker.deed? = some (.carry e) := by rw [Worker.deed?, hleft]
  rw [next?, Worker.next?, hdeed]
  exact ⟨_, rfl, by simp [Worker.perform, hleft]⟩

theorem exists_next?_take (name : String) {t : Task α} {ts : List (Task α)}
    (hleft : h.worker.left = []) (hwaiting : h.worker.board.waiting = t :: ts) :
    ∃ h', h.next? name .work = some h' ∧ h'.worker = { h.worker with
      board.waiting := ts
      left := t.effects } := by
  have hdeed : h.worker.deed? = some (.take t) := by rw [Worker.deed?, hleft, hwaiting]
  rw [next?, Worker.next?, hdeed]
  exact ⟨_, rfl, by simp [Worker.perform, Deed.log?, hwaiting]⟩

/-- The lines about panics. -/
def panicLines (name : String) (panics : List String) : List Log :=
  panics.map fun _ => .taskPanicked name

/-- The worker carries the task at hand out as `runQueued` does. -/
theorem exists_works_runQueued (name : String) {t : Task α} (hleft : h.worker.left = t.effects) :
    ∃ h', Works name h h' ∧ h'.worker = { h.worker with
      board := (runQueued true t h.worker.board).1
      left := []
      logs := h.worker.logs ++ panicLines name (runQueued true t h.worker.board).2.toList } := by
  induction t generalizing h with
  | done =>
      obtain ⟨⟨board, left, logs, exited⟩, handed, deeds⟩ := h
      obtain rfl : left = [] := hleft
      exact ⟨_, .refl name _, by simp [runQueued, panicLines]⟩
  | panic message =>
      obtain ⟨h', hwork, hworker⟩ := exists_next?_carry name hleft
      exact ⟨h', .head hwork (.refl name h'), hworker⟩
  | mark _ rest ih | askPlace rest ih | close rest ih | post _ rest _ ih =>
      obtain ⟨between, hwork, hbetween⟩ := exists_next?_carry name hleft
      obtain ⟨h', hworks, hworker⟩ := ih (h := between) (by rw [hbetween])
      refine ⟨h', .head hwork hworks, ?_⟩
      rw [hworker, hbetween]
      simp [runQueued, Effect.carryOut, Deed.log?]

theorem drain_of_nil (here : Bool) {b : Board α} (hb : b.waiting = []) :
    drain here b = (b, []) := by
  rw [drain]
  split
  · rfl
  · next hcons =>
      rw [hb] at hcons
      cases hcons

theorem drain_of_cons (here : Bool) {b : Board α} {t : Task α} {ts : List (Task α)}
    (hb : b.waiting = t :: ts) :
    drain here b =
      let first := runQueued here t { b with waiting := ts }
      let later := drain here first.1
      (later.1, first.2.toList ++ later.2) := by
  rw [drain]
  split
  · next hnil =>
      rw [hb] at hnil
      cases hnil
  · next t' ts' hcons =>
      obtain ⟨rfl, rfl⟩ := List.cons.inj (hb.symm.trans hcons)
      rfl

theorem waiting_drain (here : Bool) (b : Board α) : (drain here b).1.waiting = [] := by
  fun_induction drain with
  | case1 b hwaiting => exact hwaiting
  | case2 b t ts hwaiting after cut hrun hlt final panics hdrain ih => rwa [hdrain] at ih

/-- The worker empties its queue as `drain` does. -/
theorem exists_works_drain (name : String) (hleft : h.worker.left = []) :
    ∃ h', Works name h h' ∧ h'.worker = { h.worker with
      board := (drain true h.worker.board).1
      logs := h.worker.logs ++ panicLines name (drain true h.worker.board).2 } := by
  generalize hb : h.worker.board = b
  induction b using drain.induct true generalizing h with
  | case1 b hwaiting =>
      refine ⟨h, .refl name h, ?_⟩
      rw [drain_of_nil true hwaiting, ← hb]
      simp [panicLines]
  | case2 b t ts hwaiting after cut hrun hlt final panics hdrain ih =>
      obtain ⟨h₁, htake, hworker₁⟩ :=
        exists_next?_take name hleft (by rw [hb]; exact hwaiting)
      obtain ⟨h₂, hcarry, hworker₂⟩ :=
        exists_works_runQueued name (h := h₁) (t := t) (by rw [hworker₁])
      rw [hworker₁] at hworker₂
      dsimp only at hworker₂
      rw [hb, hrun] at hworker₂
      obtain ⟨h₃, hrest, hworker₃⟩ := ih (h := h₂) (by rw [hworker₂]) (by rw [hworker₂])
      refine ⟨h₃, .head htake (hcarry.trans hrest), ?_⟩
      rw [hworker₃, hworker₂, drain_of_cons true hwaiting, hrun]
      simp [panicLines, hleft]

theorem exists_follow?_post (name : String) (ts : List (Task α))
    (hopen : h.worker.board.isOpen = true) :
    ∃ h', h.follow? name (ts.map .post) = some h' ∧ h'.worker = { h.worker with
      board.posted := h.worker.board.posted + ts.length
      board.waiting := h.worker.board.waiting ++ ts } := by
  induction ts generalizing h with
  | nil => exact ⟨h, rfl, by simp⟩
  | cons t ts ih =>
      obtain ⟨h₁, hpost, hworker₁⟩ : ∃ h₁, h.next? name (.post t) = some h₁ ∧
          h₁.worker = { h.worker with board := h.worker.board.enqueue t } := by
        rw [next?, Worker.next?, if_pos hopen]
        exact ⟨_, rfl, rfl⟩
      have hboard : h.worker.board.enqueue t =
          { h.worker.board.count with waiting := h.worker.board.waiting ++ [t] } := if_pos hopen
      rw [hboard] at hworker₁
      obtain ⟨h', hrest, hworker⟩ := ih (h := h₁) (by rw [hworker₁]; exact hopen)
      refine ⟨h', ?_, ?_⟩
      · rw [List.map_cons, follow?_cons, hpost]
        exact hrest
      · rw [hworker, hworker₁]
        simp [Board.count, Nat.add_assoc, Nat.add_comm 1]

/-- The executor is let go of if it was not before. -/
theorem exists_follow?_close (name : String) (h : History α) :
    ∃ ms h', ms.filterMap Moment.task? = [] ∧ h.follow? name ms = some h' ∧
      h'.worker = { h.worker with board.isOpen := false } := by
  cases hopen : h.worker.board.isOpen with
  | true =>
      have hclose : h.worker.next? name .close =
          some { h.worker with board.isOpen := false } := if_pos hopen
      refine ⟨[.close], ⟨{ h.worker with board.isOpen := false }, h.handed, h.deeds⟩, rfl, ?_, rfl⟩
      rw [follow?_cons, next?, hclose]
      simp [follow?, Worker.handed, Worker.deeds]
  | false =>
      refine ⟨[], h, rfl, rfl, ?_⟩
      rw [← hopen]

theorem exists_next?_exit (name : String) (hleft : h.worker.left = [])
    (hwaiting : h.worker.board.waiting = []) (hclosed : h.worker.board.isOpen = false)
    (hx : h.worker.exited = false) :
    ∃ h', h.next? name .work = some h' ∧ h'.worker = { h.worker with
      logs := h.worker.logs ++ [.exiting name]
      exited := true } := by
  have hdeed : h.worker.deed? = some .exit := by
    rw [Worker.deed?, hleft, hwaiting, hclosed, hx]
    rfl
  rw [next?, Worker.next?, hdeed]
  exact ⟨_, rfl, rfl⟩

theorem task?_replicate_work (n : Nat) :
    (List.replicate n (.work : Moment α)).filterMap Moment.task? = [] :=
  List.filterMap_eq_nil_iff.2 fun _ hm => by rw [List.eq_of_mem_replicate hm]; rfl

/-- What `run` yields for a worker is what a history leaves behind. -/
theorem exists_follow?_run (name : String) (closes : Bool) (tasks : List (Task α)) :
    ∃ ms h, ({} : History α).follow? name ms = some h ∧ h.worker.exited = true ∧
      ms.filterMap Moment.task? = tasks ∧ run .worker name closes tasks = {
        marks := h.worker.board.marks
        panics := tasks.map fun _ => none
        posted := h.worker.board.posted
        logs := h.worker.logs } := by
  obtain ⟨h₁, hposts, hworker₁⟩ :=
    exists_follow?_post name (h := ({} : History α)) tasks rfl
  obtain ⟨ms₂, h₂, hms₂, hclose, hworker₂⟩ : ∃ ms h₂, ms.filterMap Moment.task? = [] ∧
      h₁.follow? name ms = some h₂ ∧
      h₂.worker = { ({} : Worker α) with board := queued closes tasks } := by
    cases closes with
    | true =>
        obtain ⟨ms, h₂, hms, hclose, hworker₂⟩ := exists_follow?_close name h₁
        refine ⟨ms, h₂, hms, hclose, ?_⟩
        rw [hworker₂, hworker₁]
        simp [queued]
    | false =>
        refine ⟨[], h₁, rfl, rfl, ?_⟩
        rw [hworker₁]
        simp [queued]
  obtain ⟨h₃, ⟨n, hworks⟩, hworker₃⟩ :=
    exists_works_drain name (h := h₂) (by rw [hworker₂])
  obtain ⟨ms₄, h₄, hms₄, hlast, hworker₄⟩ := exists_follow?_close name h₃
  rw [hworker₂] at hworker₃
  rw [hworker₃] at hworker₄
  obtain ⟨h₅, hexit, hworker₅⟩ := exists_next?_exit name (h := h₄) (by rw [hworker₄])
    (by rw [hworker₄]; exact waiting_drain ..) (by rw [hworker₄]) (by rw [hworker₄])
  refine ⟨tasks.map .post ++ (ms₂ ++ (List.replicate n .work ++ (ms₄ ++ [.work]))), h₅, ?_, ?_, ?_,
    ?_⟩
  · rw [follow?_append, hposts, Option.bind_some, follow?_append, hclose, Option.bind_some,
      follow?_append, hworks, Option.bind_some, follow?_append, hlast, Option.bind_some,
      follow?_cons, hexit]
    rfl
  · rw [hworker₅]
  · rw [List.filterMap_append, List.filterMap_append, List.filterMap_append, List.filterMap_append,
      hms₂, hms₄, task?_replicate_work, List.filterMap_map]
    simp [Function.comp_def, Moment.task?]
  · rw [hworker₅, hworker₄, run]
    simp [panicLines]

/-! ## All of it -/

/-- Every history of a worker, whatever the tasks do and whenever others hand tasks over or let go
of the executor:

* the tasks that reached the queue are taken in the order in which they did, and carried out one
  after the other, each to its end or its panic; each panic is logged once, and nothing else is
  but the exit;
* once the worker has exited it has carried out every task that ever reached the queue, once, and
  the line about the exit is the last one;
* the history goes on until the worker has exited and no longer, does not go on forever, and comes
  to the exit without anybody's help once the executor was let go of.

The runs in which everything is handed over before the first task begins are among the histories. -/
theorem orderly_of_history (name : String) :
    (∀ ms (h : History α), ({} : History α).follow? name ms = some h →
      h.Orderly name ∧
      (h.worker.exited = true → h.deeds = h.handed.flatMap script ++ [.exit] ∧
        h.worker.logs =
          (h.handed.flatMap script).filterMap (Deed.log? name) ++ [.exiting name]) ∧
      ((∀ m, h.next? name m = none) ↔ h.worker.exited = true) ∧
      h.deeds.length ≤ 2 * total (ms.filterMap Moment.task?) + 1 ∧
      (h.worker.board.isOpen = false → ∃ h', Works name h h' ∧ h'.worker.exited = true)) ∧
    ∀ closes (tasks : List (Task α)), ∃ ms h, ({} : History α).follow? name ms = some h ∧
      h.worker.exited = true ∧ ms.filterMap Moment.task? = tasks ∧
      run .worker name closes tasks = {
        marks := h.worker.board.marks
        panics := tasks.map fun _ => none
        posted := h.worker.board.posted
        logs := h.worker.logs } := by
  refine ⟨fun ms h hrun => ?_, exists_follow?_run name⟩
  have ho := orderly_of_follow? hrun
  refine ⟨ho, fun hx => ?_, forall_next?_eq_none_iff ho,
    Nat.le_trans (Nat.le_add_right ..) (toil_of_follow? hrun), exists_works_exited⟩
  obtain ⟨-, hleft, hwaiting⟩ := ho.exit hx
  have htaken : h.taken = h.handed := by rw [ho.queue, hwaiting, List.append_nil]
  have hdeeds : h.deeds = h.handed.flatMap script ++ [.exit] := by
    have hscripts := ho.scripts
    rwa [hleft, hx, htaken, List.map_nil, List.append_nil, if_pos rfl] at hscripts
  refine ⟨hdeeds, ?_⟩
  rw [ho.logs, hdeeds, List.filterMap_append]
  rfl

/-! ### A panic between others -/

namespace Between

/-- Lets go of the executor. What it hands over afterwards reaches nobody. -/
def closing : Task Nat := .mark 2 (.close (.post (.mark 3 .done) .done))

/-- Hands `closing` over and panics. -/
def panicking : Task Nat := .post closing (.panic "boom")

def marking : Task Nat := .mark 1 .done

/-- `marking` is handed over while `panicking` is carried out, before `closing` is. -/
def moments : List (Moment Nat) :=
  [.post panicking, .work, .post marking] ++ .replicate 9 .work

def atExit : History Nat := (follow? "w" {} moments).get (by decide)

theorem all_carried_out :
    follow? "w" {} moments = some atExit ∧ atExit.worker.exited = true ∧
      atExit.deeds = [panicking, marking, closing].flatMap script ++ [.exit] ∧
      atExit.worker.logs = [.taskPanicked "w", .exiting "w"] := by
  have hrun : follow? "w" {} moments = some atExit := rfl
  have hexited : atExit.worker.exited = true := by decide
  obtain ⟨-, hend, -⟩ := (orderly_of_history "w").1 moments atExit hrun
  obtain ⟨hdeeds, hlogs⟩ := hend hexited
  have hhanded : atExit.handed = [panicking, marking, closing] := by decide
  rw [hhanded] at hdeeds hlogs
  exact ⟨hrun, hexited, hdeeds, hlogs⟩

end Between

end History

end Recycler.Task

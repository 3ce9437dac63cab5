import Recycler.Proofs.Session.Turn
import Recycler.Proofs.Store.Unarm

/-!
# Sessions that differ in what they report

What commands reply, what callbacks report and what is logged is written down and never looked at
again, but to be reported in turn. So a session does the same without it, and also if an engine is
not armed, as long as nobody arms it and no layout begins on it (`outline`).
-/

namespace Recycler

/-- A thread without the reply to the command that ended last on it. -/
def Thread.silent (t : Thread) : Thread := { t with reply := .done }

namespace Session

/-- A session without what was reported, in which an engine, if one is given, is not armed. -/
def outline (E : Option Nat) (s : Session) : Session :=
  { s with
    store := s.store.unarm E
    threads := s.threads.map Thread.silent
    events := []
    logs := [] }

variable {E : Option Nat} {s : Session} {i : Nat}

/-! ## Parts of an outline -/

section Parts

variable (E s)

@[simp] theorem store_outline : (s.outline E).store = s.store.unarm E := rfl

@[simp] theorem registers_outline : (s.outline E).registers = s.registers := rfl

@[simp] theorem scripts_outline : (s.outline E).scripts = s.scripts := rfl

@[simp] theorem shown_outline : (s.outline E).shown = s.shown := rfl

@[simp] theorem issuedItems_outline : (s.outline E).issuedItems = s.issuedItems := rfl

@[simp] theorem issuedComponents_outline :
    (s.outline E).issuedComponents = s.issuedComponents := rfl

@[simp] theorem allocations_outline : (s.outline E).allocations = s.allocations := rfl

@[simp] theorem namedShared_outline : (s.outline E).namedShared = s.namedShared := rfl

@[simp] theorem length_threads_outline : (s.outline E).threads.length = s.threads.length :=
  List.length_map _

theorem getElem?_threads_outline (j : Nat) :
    (s.outline E).threads[j]? = s.threads[j]?.map Thread.silent := List.getElem?_map

@[simp] theorem outline_outline : (s.outline E).outline none = s.outline E := by
  simp [outline, Function.comp_def, Thread.silent]

end Parts

/-! ## Changing parts -/

theorem outline_modifyThread {f g : Thread → Thread} (h : ∀ t, (f t).silent = g t.silent) :
    (s.modifyThread i f).outline E = (s.outline E).modifyThread i g := by
  simp only [outline, modifyThread, mk.injEq, true_and, and_true]
  refine List.ext_getElem? fun j => ?_
  simp only [List.getElem?_map, List.getElem?_modify]
  cases s.threads[j]? with
  | none => rfl
  | some t => by_cases hj : i = j <;> simp [hj, h]

@[simp] theorem outline_push (fs : List Frame) :
    (s.push i fs).outline E = (s.outline E).push i fs := outline_modifyThread fun _ => rfl

@[simp] theorem outline_off : (s.off i).outline E = (s.outline E).off i :=
  outline_modifyThread fun _ => rfl

@[simp] theorem outline_answer (r : Reply) : (s.answer i r).outline E = s.outline E := by
  simp only [answer, outline, modifyThread, mk.injEq, true_and, and_true]
  refine List.ext_getElem? fun j => ?_
  simp only [List.getElem?_map, List.getElem?_modify]
  cases s.threads[j]? with
  | none => rfl
  | some t => by_cases hj : i = j <;> simp [hj, Thread.answer, Thread.silent]

@[simp] theorem outline_report (e : Event) : (s.report e).outline E = s.outline E := rfl

@[simp] theorem outline_write (lines : List Log) : (s.write lines).outline E = s.outline E := rfl

@[simp] theorem outline_modifyRegisters (f : Registers → Registers) :
    (s.modifyRegisters f).outline E = (s.outline E).modifyRegisters f := rfl

theorem outline_modifyStore {f : Store → Store}
    (hf : (s.store.unarm E |> f) = (f s.store).unarm E) :
    (s.modifyStore f).outline E = (s.outline E).modifyStore f := by
  simp only [outline, modifyStore, hf]

@[simp] theorem outline_none_modifyStore (f : Store → Store) :
    (s.modifyStore f).outline none = (s.outline none).modifyStore f := rfl

/-- Takes frames off a thread as a panic does. -/
def unwind (s : Session) (i : Nat) : Session :=
  s.modifyThread i fun t => { t with stack := t.stack.dropWhile fun f => !f.stopsPanic }

@[simp] theorem outline_panic (message : String) :
    (s.panic i message).outline E = (s.outline E).unwind i := outline_modifyThread fun _ => rfl

@[simp] theorem outline_unwind : (s.unwind i).outline E = (s.outline E).unwind i :=
  outline_modifyThread fun _ => rfl

@[simp] theorem unwind_outline_panic (message : String) :
    ((s.outline E).panic i message).outline none = (s.panic i message).outline E := by simp

@[simp] theorem outline_fire (script : Option Nat) :
    (s.fire i script).outline E = (s.outline E).fire i script := by
  cases script with
  | none => rfl
  | some n =>
      simp only [fire, scripts_outline]
      split
      · rw [outline_push]
        rfl
      · rfl

@[simp] theorem outline_start (frames : List Frame) :
    (s.start frames).outline E = (s.outline E).start frames := by
  simp [start, outline, Thread.silent]

@[simp] theorem outline_setHandle (name : String) (h : Nat) :
    (s.setHandle name h).outline E = (s.outline E).setHandle name h := rfl

@[simp] theorem outline_makeComponent (into name : String) (equivalence : Equivalence) :
    (s.makeComponent into name equivalence).outline E =
      (s.outline E).makeComponent into name equivalence := rfl

@[simp] theorem outline_issueItem (into : String) (item : Shared Descriptor) :
    (s.issueItem into item).outline E = (s.outline E).issueItem into item := rfl

theorem outline_fill {t : Session} {into : Target} {f g : String → Session}
    (ht : t.outline none = s.outline E)
    (h : ∀ name, (g name).outline none = (f name).outline E) :
    (t.fill i into g).outline none = (s.fill i into f).outline E := by
  cases into with
  | none => simp [fill, ht]
  | some name => exact h name

/-! ## Looking things up -/

section Lookups

variable (E s)

@[simp] theorem references_outline : (s.outline E).references = s.references := by
  funext h
  simp only [references, outline, List.foldr_map]
  rfl

@[simp] theorem isAlive_outline : (s.outline E).isAlive = s.isAlive := by
  funext h
  simp [isAlive, Store.isIdle]

@[simp] theorem resolve?_outline : (s.outline E).resolve? = s.resolve? := by
  funext w
  simp [resolve?]

@[simp] theorem component_outline : (s.outline E).component = s.component := rfl

@[simp] theorem sideComponent_outline : (s.outline E).sideComponent = s.sideComponent := rfl

@[simp] theorem item_outline : (s.outline E).item = s.item := rfl

@[simp] theorem policy_outline : (s.outline E).policy = s.policy := rfl

@[simp] theorem executor_outline : (s.outline E).executor = s.executor := rfl

@[simp] theorem manualQueue_outline : (s.outline E).manualQueue = s.manualQueue := by
  funext name
  simp [manualQueue]

@[simp] theorem engine_outline : (s.outline E).engine = s.engine := rfl

@[simp] theorem gate_outline : (s.outline E).gate = s.gate := rfl

@[simp] theorem pool_outline : (s.outline E).pool = s.pool := rfl

@[simp] theorem holder_outline : (s.outline E).holder = s.holder := rfl

@[simp] theorem weakHandle_outline : (s.outline E).weakHandle = s.weakHandle := rfl

@[simp] theorem job_outline : (s.outline E).job = s.job := rfl

@[simp] theorem treeEngine_outline : (s.outline E).treeEngine = s.treeEngine := rfl

@[simp] theorem treeRef_outline : (s.outline E).treeRef = s.treeRef := by
  funext engine index
  simp [treeRef, Function.comp_def]

@[simp] theorem check_outline : (s.outline E).check = s.check := by
  funext r
  cases r <;> simp [check]

@[simp] theorem blame_outline : (s.outline E).blame = s.blame := by
  funext field registers
  induction registers with
  | nil => rfl
  | cons r rest ih => simp [blame, ih]

@[simp] theorem treeName_outline : (s.outline E).treeName = s.treeName := rfl

@[simp] theorem isLaidOut_unarm : (s.store.unarm E).isLaidOut = s.store.isLaidOut := by
  funext h
  have htree : (s.store.unarm E).tree? = s.store.tree? := by
    funext t
    simp
  simp only [Store.isLaidOut, Store.holders_unarm, htree]

@[simp] theorem showHolder_outline (h : Nat) :
    (s.outline E).showHolder h = ((s.showHolder h).1.outline E, (s.showHolder h).2) := by
  unfold showHolder
  rw [shown_outline]
  split <;> rfl

@[simp] theorem view?_outline (h : Nat) :
    (s.outline E).view? h = ((s.view? h).1.outline E, (s.view? h).2) := by
  unfold view?
  rw [store_outline, Store.holders_unarm]
  cases s.store.holders[h]? with
  | none => rfl
  | some x => simp

@[simp] theorem outline_answerHolder (i h : Nat) :
    (s.answerHolder i h).outline E = ((s.outline E).view? h).1 := by
  simp [answerHolder]

end Lookups

theorem outline_withStore {σ σ' : Store} (hσ : σ' = σ.unarm E) :
    { s.outline E with store := σ' } = ({ s with store := σ } : Session).outline E := by
  rw [hσ]
  rfl

theorem handOver_outline (l : Layout) (rest : List Frame) :
    (s.outline E).handOver i l rest = (s.handOver i l rest).outline E := by
  unfold handOver
  rw [store_outline, Store.tree?_unarm]
  split
  · rw [outline_push, outline_modifyStore (by simp)]
  · rw [outline_push]

theorem reportBuilding_outline (engine : Nat) (config : Tree.Config) :
    (s.reportBuilding engine config).outline E = s.outline E := by
  unfold reportBuilding
  split
  · split <;> rfl
  · rfl

end Session

end Recycler

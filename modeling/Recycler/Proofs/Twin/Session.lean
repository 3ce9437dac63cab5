import Recycler.Proofs.Twin.Renaming

/-!
# Twin sessions

Two sessions are twins under a renaming of holders if they are in the same state but for the
instances of their holders. What commands and callbacks report is then `Alike`: the same but for
the numbers under which holders are shown, the generations of weak handles, and the counters of
pools. Log lines are left out, since they tell whether a holder was used again.

This module has the parts that steps are made of; each of them keeps twins.
-/

namespace Recycler

/-! ## Reports -/

/-- A holder as it is shown, without the number it is shown under. -/
def HolderView.anonymous (v : HolderView) : HolderView := { v with instanceNumber := 0 }

/-- Replies that differ in nothing but the identity of holders and what pools keep. `k` and `k'`
are the numbers of holders shown so far. -/
inductive Reply.Alike (k k' : Nat) : Reply → Reply → Prop
  | refl (r : Reply) : Alike k k' r r
  | number {n n' : Nat} (hn : n < k) (hn' : n' < k') : Alike k k' (.count n) (.count n')
  | handle (w w' : WeakHandle) : Alike k k' (.text w.text) (.text w'.text)
  | pool (capacity : UInt64) (pool pool' : Pool) (hcap : pool'.capacity = pool.capacity) :
      Alike k k' (.pool capacity (some pool)) (.pool capacity (some pool'))
  | holder {v v' : HolderView} (hv : v'.anonymous = v.anonymous) :
      Alike k k' (.holder v) (.holder v')
  | tree (ρ : Renaming) (t : Tree) : Alike k k' (.tree t) (.tree (t.rename ρ))
  | finished {r r' : Reply} (hr : Alike k k' r r') : Alike k k' (.finished r) (.finished r')

inductive Event.Alike (k k' : Nat) : Event → Event → Prop
  | refl (e : Event) : Alike k k' e e
  | factory (name : Option String) {v v' : Option HolderView} (w w' : WeakHandle)
      (hv : v'.map (·.anonymous) = v.map (·.anonymous)) :
      Alike k k' (.factory name v w) (.factory name v' w')
  | building (engine : String) (ρ : Renaming) (c : Tree.Config) :
      Alike k k' (.building engine c) (.building engine (c.rename ρ))
  | step (name : Option String) {r r' : Reply} (hr : r.Alike k k' r') :
      Alike k k' (.step name r) (.step name r')

/-- Events that are alike one by one. -/
def Event.AllAlike (k k' : Nat) (es es' : List Event) : Prop :=
  es'.length = es.length ∧ ∀ e ∈ es.zip es', e.1.Alike k k' e.2

variable {k k' l l' : Nat} {r r' : Reply} {e e' : Event} {es es' : List Event}

theorem Reply.Alike.mono (h : r.Alike k k' r') (hk : k ≤ l) (hk' : k' ≤ l') : r.Alike l l' r' := by
  induction h with
  | refl r => exact .refl r
  | number hn hn' => exact .number (Nat.lt_of_lt_of_le hn hk) (Nat.lt_of_lt_of_le hn' hk')
  | handle w w' => exact .handle w w'
  | pool capacity pool pool' hcap => exact .pool capacity pool pool' hcap
  | holder hv => exact .holder hv
  | tree ρ t => exact .tree ρ t
  | finished hr ih => exact .finished ih

theorem Event.Alike.mono (h : e.Alike k k' e') (hk : k ≤ l) (hk' : k' ≤ l') : e.Alike l l' e' := by
  cases h with
  | refl e => exact .refl e
  | factory name w w' hv => exact .factory name w w' hv
  | building engine ρ c => exact .building engine ρ c
  | step name hr => exact .step name (hr.mono hk hk')

theorem Event.AllAlike.mono (h : Event.AllAlike k k' es es') (hk : k ≤ l) (hk' : k' ≤ l') :
    Event.AllAlike l l' es es' := ⟨h.1, fun p hp => (h.2 p hp).mono hk hk'⟩

theorem Event.allAlike_nil : Event.AllAlike k k' [] [] := ⟨rfl, fun _ hp => nomatch hp⟩

theorem Event.allAlike_refl (es : List Event) : Event.AllAlike k k' es es := by
  induction es with
  | nil => exact allAlike_nil
  | cons e es ih =>
      refine ⟨rfl, fun p hp => ?_⟩
      rcases List.mem_cons.1 hp with rfl | hp
      · exact .refl e
      · exact ih.2 p hp

theorem Event.AllAlike.concat (h : Event.AllAlike k k' es es') (he : e.Alike k k' e') :
    Event.AllAlike k k' (es ++ [e]) (es' ++ [e']) := by
  refine ⟨by simp [h.1], fun p hp => ?_⟩
  rw [List.zip_append h.1.symm] at hp
  rcases List.mem_append.1 hp with hp | hp
  · exact h.2 p hp
  · obtain rfl := List.mem_singleton.1 hp
    exact he

/-! ## Frames and registers -/

def Sequel.rename (ρ : Renaming) : Sequel → Sequel
  | .commit r => .commit (r.rename ρ)
  | s => s

def Frame.rename (ρ : Renaming) : Frame → Frame
  | .openRequest call => .openRequest (call.rename ρ)
  | .factory maker handle => .factory maker (ρ.handle handle)
  | .claimTree call item component handle listener =>
    .claimTree (call.rename ρ) item component (ρ.handle handle) (listener.map (·.rename ρ))
  | .layout l sequel stage => .layout l (sequel.rename ρ) stage
  | .confirm r => .confirm (r.rename ρ)
  | .giveBack h => .giveBack (ρ.holder h)
  | f => f

def Registers.rename (ρ : Renaming) (r : Registers) : Registers :=
  { r with handles := r.handles.mapValues ρ.holder, weaks := r.weaks.mapValues ρ.handle }

variable {ρ : Renaming} {P : Nat → Prop}

theorem Frame.stopsPanic_rename (f : Frame) : (f.rename ρ).stopsPanic = f.stopsPanic := by
  cases f <;> rfl

theorem Frame.isGiveBack_rename (f : Frame) : (f.rename ρ).isGiveBack = f.isGiveBack := by
  cases f <;> rfl

theorem Frame.isServe_rename (f : Frame) : (f.rename ρ).isServe = f.isServe := by
  cases f <;> rfl

theorem Frame.serves_rename (q : Nat) (f : Frame) : (f.rename ρ).serves q = f.serves q := by
  cases f <;> rfl

theorem Frame.busy?_rename (f : Frame) : (f.rename ρ).busy? = f.busy? := by
  cases f <;> rfl

theorem Frame.holder?_rename (f : Frame) : (f.rename ρ).holder? = f.holder?.map ρ.holder := by
  cases f with
  | layout l sequel stage => cases sequel <;> rfl
  | _ => rfl

theorem Frame.engine?_rename (f : Frame) : (f.rename ρ).engine? = f.engine? := by
  cases f with
  | layout l sequel stage => cases sequel <;> rfl
  | _ => rfl

theorem Frame.tree?_rename (f : Frame) : (f.rename ρ).tree? = f.tree? := by
  cases f <;> rfl

/-! ## Sessions -/

/-- Threads that do the same. -/
structure Thread.Twin (ρ : Renaming) (k k' : Nat) (t t' : Thread) : Prop where
  stack : t'.stack = t.stack.map (·.rename ρ)
  reply : t.reply.Alike k k' t'.reply

namespace Session

/-- Two sessions are the same but for the holders that stand for those in `P`. -/
structure Twin (ρ : Renaming) (P : Nat → Prop) (s s' : Session) : Prop where
  inj : ∀ a b, P a → P b → ρ.holder a = ρ.holder b → a = b
  store : s.store.Twin ρ P s'.store
  registers : s'.registers = s.registers.rename ρ
  count : s'.threads.length = s.threads.length
  threads : ∀ j : Nat, Option.Rel (Thread.Twin ρ s.shown.length s'.shown.length)
    s.threads[j]? s'.threads[j]?
  events : Event.AllAlike s.shown.length s'.shown.length s.events s'.events
  scripts : s'.scripts = s.scripts
  issuedItems : s'.issuedItems = s.issuedItems
  issuedComponents : s'.issuedComponents = s.issuedComponents
  allocations : s'.allocations = s.allocations

variable {s s' : Session} {i : Nat}

/-- Threads go on being twins when they are changed alike. -/
theorem Twin.modifyThread (h : s.Twin ρ P s') (i : Nat) {f f' : Thread → Thread}
    (hf : ∀ t t', t.Twin ρ s.shown.length s'.shown.length t' →
      (f t).Twin ρ s.shown.length s'.shown.length (f' t')) :
    (s.modifyThread i f).Twin ρ P (s'.modifyThread i f') :=
  { h with
    count := by simp [Session.modifyThread, h.count]
    threads := fun j => by
      simp only [Session.modifyThread, List.getElem?_modify]
      have ht := h.threads j
      revert ht
      cases s.threads[j]? <;> cases s'.threads[j]? <;> intro ht <;> cases ht
      · exact .none
      · next t t' ht =>
          refine .some ?_
          split
          · exact hf t t' ht
          · exact ht }

theorem Twin.off (h : s.Twin ρ P s') (i : Nat) : (s.off i).Twin ρ P (s'.off i) :=
  h.modifyThread i fun t t' ht => ⟨by rw [ht.stack, List.map_tail], ht.reply⟩

theorem Twin.push (h : s.Twin ρ P s') (i : Nat) (fs : List Frame) :
    (s.push i fs).Twin ρ P (s'.push i (fs.map (·.rename ρ))) :=
  h.modifyThread i fun t t' ht =>
    ⟨by rw [Thread.push, Thread.push, ht.stack, List.map_append], ht.reply⟩

theorem Twin.answer (h : s.Twin ρ P s') (i : Nat)
    (hr : r.Alike s.shown.length s'.shown.length r') :
    (s.answer i r).Twin ρ P (s'.answer i r') :=
  h.modifyThread i fun _ _ ht => ⟨ht.stack, hr⟩

/-- The same reply. -/
theorem Twin.say (h : s.Twin ρ P s') (i : Nat) (r : Reply) :
    (s.answer i r).Twin ρ P (s'.answer i r) := h.answer i (.refl r)

theorem Twin.panic (h : s.Twin ρ P s') (i : Nat) (message : String) :
    (s.panic i message).Twin ρ P (s'.panic i message) := by
  refine h.modifyThread i fun t t' ht => ⟨?_, .refl _⟩
  rw [Thread.panic, Thread.panic, ht.stack]
  dsimp only
  generalize t.stack = fs
  induction fs with
  | nil => rfl
  | cons f fs ih =>
      rw [List.map_cons, List.dropWhile_cons, List.dropWhile_cons, f.stopsPanic_rename]
      split
      · exact ih
      · rfl

theorem Twin.report (h : s.Twin ρ P s') (he : e.Alike s.shown.length s'.shown.length e') :
    (s.report e).Twin ρ P (s'.report e') := { h with events := h.events.concat he }

theorem Twin.write (h : s.Twin ρ P s') (lines lines' : List Log) :
    (s.write lines).Twin ρ P (s'.write lines') := { h with }

theorem Twin.withStore {u u' : Store} (h : s.Twin ρ P s') (hu : u.Twin ρ P u') :
    { s with store := u }.Twin ρ P { s' with store := u' } := { h with store := hu }

theorem Twin.act {a : Store.Act} (h : s.Twin ρ P s') (ha : a.Fits ρ P s.store s'.store) :
    { s with store := s.store.act a }.Twin ρ P
      { s' with store := s'.store.act (a.rename ρ) } := h.withStore (h.store.act h.inj ha)

theorem Twin.modifyRegisters (h : s.Twin ρ P s') {f f' : Registers → Registers}
    (hf : ∀ r, f' (r.rename ρ) = (f r).rename ρ) :
    (s.modifyRegisters f).Twin ρ P (s'.modifyRegisters f') :=
  { h with registers := (congrArg f' h.registers).trans (hf _) }

theorem Twin.setHandle (h : s.Twin ρ P s') (name : String) (k : Nat) :
    (s.setHandle name k).Twin ρ P (s'.setHandle name (ρ.holder k)) :=
  h.modifyRegisters fun r => by
    unfold Registers.rename
    rw [Keyed.mapValues_put]

theorem Twin.start (h : s.Twin ρ P s') (fs : List Frame) :
    (s.start fs).Twin ρ P (s'.start (fs.map (·.rename ρ))) :=
  { h with
    count := by simp [Session.start, h.count]
    threads := fun j => by
      simp only [Session.start, List.getElem?_append, h.count]
      split
      · exact h.threads j
      · cases j - s.threads.length with
        | zero => exact .some ⟨rfl, .refl _⟩
        | succ n => exact .none }

theorem Twin.fire (h : s.Twin ρ P s') (i : Nat) (script : Option Nat) :
    (s.fire i script).Twin ρ P (s'.fire i script) := by
  unfold Session.fire
  rw [h.scripts]
  split
  · exact h
  · split
    · next n _ steps rest _ =>
        have hset : { s with scripts := s.scripts.set n rest }.Twin ρ P
            { s' with scripts := s.scripts.set n rest } := { h with scripts := rfl }
        exact hset.push i [.script steps]
    · exact h

theorem Twin.fill (h : s.Twin ρ P s') (i : Nat) {into : Target} {f f' : String → Session}
    (hf : ∀ name, (f name).Twin ρ P (f' name)) :
    (s.fill i into f).Twin ρ P (s'.fill i into f') := by
  cases into with
  | none => exact h.say i _
  | some name => exact hf name

/-! ## Showing holders -/

theorem Twin.withShown (h : s.Twin ρ P s') {l l' : List Nat} (hl : s.shown.length ≤ l.length)
    (hl' : s'.shown.length ≤ l'.length) :
    { s with shown := l }.Twin ρ P { s' with shown := l' } :=
  { h with
    threads := fun j => by
      have ht := h.threads j
      revert ht
      dsimp only
      cases s.threads[j]? <;> cases s'.threads[j]? <;> intro ht <;> cases ht
      · exact .none
      · next t t' ht => exact .some ⟨ht.stack, ht.reply.mono hl hl'⟩
    events := h.events.mono hl hl' }

theorem showHolder_eq (s : Session) (h : Nat) : ∃ l, s.shown.length ≤ l.length ∧
    (s.showHolder h).1 = { s with shown := l } ∧ (s.showHolder h).2 < l.length := by
  unfold showHolder
  split
  · next n hn => exact ⟨s.shown, Nat.le_refl _, rfl, (List.idxOf?_eq_some_iff.1 hn).1⟩
  · exact ⟨s.shown ++ [h], by simp, rfl, by simp⟩

theorem Twin.showHolder (h : s.Twin ρ P s') (k k' : Nat) :
    (s.showHolder k).1.Twin ρ P (s'.showHolder k').1 ∧
      (Reply.count (s.showHolder k).2).Alike (s.showHolder k).1.shown.length
        (s'.showHolder k').1.shown.length (.count (s'.showHolder k').2) := by
  obtain ⟨l, hl, heq, hn⟩ := s.showHolder_eq k
  obtain ⟨l', hl', heq', hn'⟩ := s'.showHolder_eq k'
  rw [heq, heq']
  exact ⟨h.withShown hl hl', .number hn hn'⟩

theorem fst_view? (s : Session) (h : Nat) :
    ∃ l, s.shown.length ≤ l.length ∧ (s.view? h).1 = { s with shown := l } := by
  unfold Session.view?
  split
  · exact ⟨s.shown, Nat.le_refl _, rfl⟩
  · obtain ⟨l, hl, heq, -⟩ := s.showHolder_eq h
    exact ⟨l, hl, heq⟩

/-- Looking at holders changes nothing but the numbers they are shown under. -/
theorem Twin.look (h : s.Twin ρ P s') (k k' : Nat) :
    (s.view? k).1.Twin ρ P (s'.view? k').1 := by
  obtain ⟨l, hl, heq⟩ := s.fst_view? k
  obtain ⟨l', hl', heq'⟩ := s'.fst_view? k'
  rw [heq, heq']
  exact h.withShown hl hl'

theorem Twin.isLaidOut (h : s.Twin ρ P s') {k : Nat} (hk : P k) :
    s'.store.isLaidOut (ρ.holder k) = s.store.isLaidOut k := by
  obtain ⟨x, g, hx, hx', -⟩ := h.store.holders k hk
  unfold Store.isLaidOut
  rw [hx, hx']
  dsimp only
  cases x.state.item with
  | none => rfl
  | some item =>
      cases x.state.slot.tree? with
      | none => rfl
      | some t =>
          simp only [Option.bind_some, h.store.tree?]
          cases s.store.tree? t with
          | none => rfl
          | some tree => cases x.state.requested <;> rfl

theorem Twin.view? (h : s.Twin ρ P s') {k : Nat} (hk : P k) :
    (s'.view? (ρ.holder k)).2.map (·.anonymous) = (s.view? k).2.map (·.anonymous) := by
  obtain ⟨x, g, hx, hx', -⟩ := h.store.holders k hk
  obtain ⟨l, -, heq, -⟩ := s.showHolder_eq k
  obtain ⟨l', -, heq', -⟩ := s'.showHolder_eq (ρ.holder k)
  have hname : ({ s' with shown := l' } : Session).treeName =
      ({ s with shown := l } : Session).treeName := by
    funext t
    unfold treeName
    rw [h.registers]
    rfl
  unfold Session.view?
  rw [hx, hx']
  simp only [heq, heq', HolderView.anonymous, Option.map_some, hname, h.isLaidOut hk]

/-! ## Looking registers up -/

section Registers

variable (h : s.Twin ρ P s')

include h

theorem Twin.component : s'.component = s.component := by
  funext name
  rw [Session.component, Session.component, h.registers]
  rfl

theorem Twin.sideComponent : s'.sideComponent = s.sideComponent := by
  funext name
  rw [Session.sideComponent, Session.sideComponent, h.registers]
  rfl

theorem Twin.item : s'.item = s.item := by
  funext name
  rw [Session.item, Session.item, h.registers]
  rfl

theorem Twin.executor : s'.executor = s.executor := by
  funext name
  rw [Session.executor, Session.executor, h.registers]
  rfl

theorem Twin.policy : s'.policy = s.policy := by
  funext settings
  rw [Session.policy, Session.policy, h.registers]
  rfl

theorem Twin.manualQueue : s'.manualQueue = s.manualQueue := by
  funext name
  rw [Session.manualQueue, Session.manualQueue, h.registers, h.store.queues]
  rfl

theorem Twin.engine : s'.engine = s.engine := by
  funext name
  rw [Session.engine, Session.engine, h.registers]
  rfl

theorem Twin.gate : s'.gate = s.gate := by
  funext name
  rw [Session.gate, Session.gate, h.registers]
  rfl

theorem Twin.pool : s'.pool = s.pool := by
  funext name
  rw [Session.pool, Session.pool, h.registers]
  rfl

theorem Twin.holder (name : String) : s'.holder name = (s.holder name).map ρ.holder := by
  rw [Session.holder, Session.holder, h.registers, Registers.rename]
  dsimp only
  rw [Keyed.get?_mapValues]
  cases s.registers.handles.get? name <;> rfl

theorem Twin.weakHandle (name : String) :
    s'.weakHandle name = (s.weakHandle name).map ρ.handle := by
  rw [Session.weakHandle, Session.weakHandle, h.registers, Registers.rename]
  dsimp only
  rw [Keyed.get?_mapValues]
  cases s.registers.weaks.get? name <;> rfl

theorem Twin.job : s'.job = s.job := by
  funext name
  rw [Session.job, Session.job, h.registers]
  rfl

theorem Twin.treeEngine : s'.treeEngine = s.treeEngine := by
  funext name
  rw [Session.treeEngine, Session.treeEngine, h.registers]
  rfl

theorem Twin.treeRef : s'.treeRef = s.treeRef := by
  funext engine index
  unfold Session.treeRef
  rw [h.treeEngine]
  cases s.treeEngine engine with
  | error trouble => rfl
  | ok e =>
      have hlength : ((s'.store.engines[e]?.map (·.trees)).getD []).length =
          ((s.store.engines[e]?.map (·.trees)).getD []).length := by
        rw [h.store.engine]
        cases s.store.engines[e]? with
        | none => rfl
        | some engine => exact List.length_map ..
      simp only [bind, Except.bind, hlength]

theorem Twin.check (r : Register) : s'.check r = s.check r := by
  cases r with
  | component name => rw [Session.check, Session.check, h.component]
  | side name => rw [Session.check, Session.check, h.sideComponent]
  | item name => rw [Session.check, Session.check, h.item]
  | executor name => rw [Session.check, Session.check, h.executor]
  | manual name => rw [Session.check, Session.check, h.manualQueue]
  | engine name => rw [Session.check, Session.check, h.engine]
  | gate name => rw [Session.check, Session.check, h.gate]
  | pool name => rw [Session.check, Session.check, h.pool]
  | handle name =>
      rw [Session.check, Session.check, h.holder]
      cases s.holder name <;> rfl
  | weak name =>
      rw [Session.check, Session.check, h.weakHandle]
      cases s.weakHandle name <;> rfl
  | job name => rw [Session.check, Session.check, h.job]
  | treesOf engine => rw [Session.check, Session.check, h.treeEngine]
  | tree engine index => rw [Session.check, Session.check, h.treeRef]

theorem Twin.blame (field : String) (registers : List Register) :
    s'.blame field registers = s.blame field registers := by
  induction registers with
  | nil => rfl
  | cons r rest ih => rw [Session.blame, Session.blame, h.check, ih]

end Registers

end Session

end Recycler

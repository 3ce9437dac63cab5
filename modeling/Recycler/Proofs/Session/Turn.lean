import Recycler.Proofs.Session.Acts

/-!
# Turns

What it comes to that a thread is carried on by one frame, as far as holders and the work under way
are concerned: the acts on the store, the frames put in place of the one carried on (`Ensues`), and
the handles that registers gain. Replies, events, log lines and the numbers under which holders are
shown are left out; two sessions that differ in nothing else are `Like`.

`turn_of_advance?` says that every step is such a `Turn`. It is the only statement about all
commands and frames; what is said of steps elsewhere follows from it.
-/

namespace Recycler

def Frame.isLayout : Frame → Bool
  | .layout .. => true
  | _ => false

/-- Whether a callback may be called when a frame is carried on. -/
def Frame.callsBack : Frame → Bool
  | .factory .. | .layout .. => true
  | _ => false

/-- What a thread may come to carry on anyway: a callback, or a command with its end. -/
inductive Frame.Starts : Frame → Prop
  | command (c : Command) : Starts (.command c)
  | script (steps : List Step) : Starts (.script steps)
  | conclude : Starts .conclude

/-- How a layout goes on. -/
inductive Stage.Next : Stage → Stage → Prop
  | fail (failure : Failure) : Next .enter (.deliver (.error failure))
  | wait (g : Nat) : Next .enter (.gate g)
  | begin : Next .enter .measure
  | pass (g : Nat) : Next (.gate g) .measure
  | measured (size : Size) : Next .measure (.settle size)
  | settled (size : Size) (ready : Option ReadyListener) :
      Next (.settle size) (.notifyMeasured size ready)
  | toldMeasured (size : Size) (ready : Option ReadyListener) :
      Next (.notifyMeasured size ready) (.notifyReady size ready)
  | toldReady (size : Size) (ready : Option ReadyListener) :
      Next (.notifyReady size ready) (.deliver (.ok size))

namespace Session

variable {s s' s'' : Session} {i : Nat}

/-! ## Sessions that differ in nothing that matters here -/

structure Like (s s' : Session) : Prop where
  store : s'.store = s.store
  count : s'.threads.length = s.threads.length
  work : ∀ j, s'.work j = s.work j
  handles : s'.registers.handles = s.registers.handles
  weaks : s'.registers.weaks = s.registers.weaks
  items : s'.registers.items = s.registers.items
  issuedItems : s'.issuedItems = s.issuedItems

theorem Like.refl (s : Session) : Like s s := ⟨rfl, rfl, fun _ => rfl, rfl, rfl, rfl, rfl⟩

theorem Like.trans (h : Like s s') (h' : Like s' s'') : Like s s'' where
  store := h'.store.trans h.store
  count := h'.count.trans h.count
  work j := (h'.work j).trans (h.work j)
  handles := h'.handles.trans h.handles
  weaks := h'.weaks.trans h.weaks
  items := h'.items.trans h.items
  issuedItems := h'.issuedItems.trans h.issuedItems

theorem Like.symm (h : Like s s') : Like s' s where
  store := h.store.symm
  count := h.count.symm
  work j := (h.work j).symm
  handles := h.handles.symm
  weaks := h.weaks.symm
  items := h.items.symm
  issuedItems := h.issuedItems.symm

theorem work_modifyThread (s : Session) (i j : Nat) (f : Thread → Thread) :
    (s.modifyThread i f).work j =
      ((s.threads[j]?.map fun t => (if i = j then f t else t).stack).getD []).filter
        fun f => !f.isServe := by
  unfold work modifyThread
  rw [List.getElem?_modify]
  cases s.threads[j]? with
  | none => rfl
  | some t => split <;> rfl

theorem work_of_stack {f : Thread → Thread} (hf : ∀ t, (f t).stack = t.stack) (j : Nat) :
    (s.modifyThread i f).work j = s.work j := by
  rw [work_modifyThread, work]
  cases s.threads[j]? with
  | none => rfl
  | some t =>
      by_cases hij : i = j
      · simp [hij, hf]
      · simp [hij]

theorem work_of_length_le {j : Nat} (hj : s.threads.length ≤ j) : s.work j = [] := by
  rw [work, List.getElem?_eq_none hj]
  rfl

theorem like_answer (s : Session) (i : Nat) (r : Reply) : Like s (s.answer i r) :=
  ⟨rfl, List.length_modify .., work_of_stack fun _ => rfl, rfl, rfl, rfl, rfl⟩

theorem like_report (s : Session) (e : Event) : Like s (s.report e) :=
  ⟨rfl, rfl, fun _ => rfl, rfl, rfl, rfl, rfl⟩

theorem like_write (s : Session) (lines : List Log) : Like s (s.write lines) :=
  ⟨rfl, rfl, fun _ => rfl, rfl, rfl, rfl, rfl⟩

theorem like_showHolder (s : Session) (h : Nat) : Like s (s.showHolder h).1 := by
  unfold showHolder
  split <;> exact ⟨rfl, rfl, fun _ => rfl, rfl, rfl, rfl, rfl⟩

theorem like_view? (s : Session) (h : Nat) : Like s (s.view? h).1 := by
  unfold view?
  split
  · exact .refl s
  · exact s.like_showHolder h

theorem like_answerHolder (s : Session) (i h : Nat) : Like s (s.answerHolder i h) :=
  (s.like_view? h).trans (like_answer _ _ _)

theorem like_reportBuilding (s : Session) (engine : Nat) (config : Tree.Config) :
    Like s (s.reportBuilding engine config) := by
  unfold reportBuilding
  split
  · split
    · exact s.like_report _
    · exact .refl s
  · exact .refl s

theorem Like.modifyStore (h : Like s s') (f : Store → Store) :
    Like (s.modifyStore f) (s'.modifyStore f) :=
  ⟨congrArg f h.store, h.count, h.work, h.handles, h.weaks, h.items, h.issuedItems⟩

theorem work_push (s : Session) (i : Nat) (fs : List Frame) (j : Nat) :
    (s.push i fs).work j =
      if j = i ∧ i < s.threads.length then fs.filter (fun f => !f.isServe) ++ s.work j
      else s.work j := by
  rw [push, work_modifyThread, work]
  by_cases hj : j = i
  · subst hj
    cases ht : s.threads[j]? with
    | none =>
        have hlen : ¬ j < s.threads.length := Nat.not_lt.2 (List.getElem?_eq_none_iff.1 ht)
        simp [hlen]
    | some t => simp [(List.getElem?_eq_some_iff.1 ht).1, Thread.push]
  · simp [hj, Ne.symm hj]

theorem mem_work_push {s : Session} {i j : Nat} {fs : List Frame} {f : Frame}
    (hf : f ∈ (s.push i fs).work j) : f ∈ fs ∨ f ∈ s.work j := by
  rw [work_push] at hf
  split at hf
  · exact (List.mem_append.1 hf).imp (fun h => (List.mem_filter.1 h).1) fun h => h
  · exact .inr hf

@[simp] theorem store_push (s : Session) (i : Nat) (fs : List Frame) :
    (s.push i fs).store = s.store := rfl

theorem Like.push (h : Like s s') (i : Nat) (fs : List Frame) :
    Like (s.push i fs) (s'.push i fs) where
  store := h.store
  count := by simpa [Session.push, modifyThread] using h.count
  work j := by rw [work_push, work_push, h.work, h.count]
  handles := h.handles
  weaks := h.weaks
  items := h.items
  issuedItems := h.issuedItems

/-- A callback puts the next list of its script on top, if there is one. -/
theorem like_fire (s : Session) (i : Nat) (script : Option Nat) :
    ∃ calls, (∀ c ∈ calls, ∃ steps, c = .script steps) ∧
      Like (s.push i calls) (s.fire i script) := by
  have hnil : Like (s.push i []) s :=
    ⟨rfl, by simp [push, modifyThread], fun j => by simp [work_push], rfl, rfl, rfl, rfl⟩
  unfold fire
  split
  · exact ⟨[], by simp, hnil⟩
  · split
    · next steps rest _ =>
        exact ⟨[.script steps], by simp, rfl, rfl, fun _ => rfl, rfl, rfl, rfl, rfl⟩
    · exact ⟨[], by simp, hnil⟩

/-- A panic takes frames off a thread. -/
theorem work_panic (s : Session) (i : Nat) (message : String) (j : Nat) :
    (s.panic i message).work j <:+ s.work j ∧ (j ≠ i → (s.panic i message).work j = s.work j) := by
  rw [panic, work_modifyThread, work]
  cases s.threads[j]? with
  | none => simp
  | some t =>
      by_cases hj : j = i
      · subst hj
        simpa [Thread.panic] using (List.dropWhile_suffix _).filter _
      · simp [hj, Ne.symm hj]

/-! ## Turns -/

def handOverFrames (s : Store) (l : Layout) : List Frame :=
  match (s.tree? l.tree).bind (·.config.policy.layoutOn) with
  | some (.queue _) => []
  | _ => [.layout l .background .enter]

def launchFrames (s : Store) (r : Request) : List Frame :=
  if r.call.background then handOverFrames s r.layout ++ [.confirm r]
  else [.layout r.layout (.commit r) .enter]

def openingFrames (s : Store) (call : Call) : List Frame :=
  match s.openRequest call with
  | (store, .live r) => launchFrames store r
  | (_, .vacant item component none handle) => [.claimTree call item component handle none]
  | (_, .vacant item component (some factory) handle) =>
    [.factory factory handle, .claimTree call item component handle (some ⟨factory, some handle⟩)]
  | _ => []

def claimFrames (s : Store) (call : Call) (item : Shared Descriptor) (component : Component)
    (handle : WeakHandle) (listener : Option MeasureListener) : List Frame :=
  match s.claimTree call item component handle listener with
  | (store, .found tree) => launchFrames store { call, item, component, tree }
  | (store, .built _ tree) => launchFrames store { call, item, component, tree }
  | _ => []

/-- A request goes on as a layout; one in the background is confirmed besides. -/
theorem of_mem_launchFrames {s : Store} {r : Request} {g : Frame} (hg : g ∈ launchFrames s r) :
    g = .layout r.layout .background .enter ∨ g = .confirm r ∨
      g = .layout r.layout (.commit r) .enter := by
  unfold launchFrames at hg
  split at hg
  · rcases List.mem_append.1 hg with hg | hg
    · unfold handOverFrames at hg
      split at hg
      · cases hg
      · exact .inl (List.mem_singleton.1 hg)
    · exact .inr (.inl (List.mem_singleton.1 hg))
  · exact .inr (.inr (List.mem_singleton.1 hg))

def Holds (s : Session) (h : Nat) : Prop := ∃ name, s.registers.handles.get? name = some h

def Keeps (s : Session) (w : WeakHandle) : Prop := ∃ name, s.registers.weaks.get? name = some w

def Knows (s : Session) (item : Shared Descriptor) : Prop :=
  ∃ name, s.registers.items.get? name = some item

/-- The frames that may take the place of a frame. Callbacks come on top of them. -/
inductive Ensues (s : Session) : Frame → List Frame → Prop
  | nothing {f : Frame} (hf : f.isLayout = false) : Ensues s f []
  | request {call : Call} (c : Command) (h : s.Holds call.holder) :
      Ensues s (.command c) [.openRequest call]
  | release {name : String} {h : Nat} (hn : s.registers.handles.get? name = some h) :
      Ensues s (.command (.onHolder name .release)) [.giveBack h]
  | reply {l : Layout} (c : Command) (hl : s.store.Built l.tree) :
      Ensues s (.command c) [.layout l .reply .enter]
  | background {l : Layout} (c : Command) (hl : s.store.Built l.tree) :
      Ensues s (.command c) [.layout l .background .enter]
  | runWaiting (c : Command) (q : Nat) (count : Option Nat) :
      Ensues s (.command c) [.runWaiting q count 0]
  | script (step : Step) (rest : List Step) :
      Ensues s (.script (step :: rest)) [.command step.command, .report step.name, .script rest]
  | opened (call : Call) : Ensues s (.openRequest call) (openingFrames s.store call)
  | claimed (call : Call) (item : Shared Descriptor) (component : Component) (handle : WeakHandle)
      (listener : Option MeasureListener) :
      Ensues s (.claimTree call item component handle listener)
        (claimFrames s.store call item component handle listener)
  | layout {stage stage' : Stage} (l : Layout) (sequel : Sequel) (h : stage.Next stage') :
      Ensues s (.layout l sequel stage) [.layout l sequel stage']
  | dequeued {q : Nat} {queue : Queue} {l : Layout} (remaining : Option Nat) (count : Nat)
      (hq : s.store.queues[q]? = some queue) (hl : l ∈ queue.waiting) :
      Ensues s (.runWaiting q remaining count)
        [.layout l .background .enter, .runWaiting q (remaining.map (· - 1)) (count + 1)]
  | served {q : Nat} {queue : Queue} {l : Layout} (hq : s.store.queues[q]? = some queue)
      (hl : l ∈ queue.waiting) :
      Ensues s (.serve q) [.layout l .background .enter, .guard q]

/-- What carrying a frame on, which was taken off thread `i` before, makes of a session. -/
structure Turn (s : Session) (i : Nat) (f : Frame) (s' : Session) : Prop where
  store : s'.store = s.store.acts (s.frameActs i f)
  count : s.threads.length ≤ s'.threads.length
  goesOn : (∃ calls fs, (∀ c ∈ calls, f.callsBack ∧ ∃ steps, c = .script steps) ∧
    Ensues s f fs ∧ s'.work i = calls ++ (fs ++ s.work i)) ∨ s'.work i <:+ s.work i
  others : ∀ j, j ≠ i →
    s'.work j = s.work j ∨ s.work j = [] ∧ ∃ c, s'.work j = [.command c, .conclude]
  /-- Registers gain the holder that an item acquires, or one that a weak handle resolves to. -/
  handles : ∀ h, s'.Holds h → s.Holds h ∨
    (∃ p item policy factory, Store.Act.acquire p item policy factory ∈ s.frameActs i f ∧
      h = (s.store.takeHolder p).2.1) ∨
    ∃ w, s.Keeps w ∧ s.resolve? w = some h
  /-- Registers gain a weak handle only by a command. -/
  weaks : ∀ w, s'.Keeps w → s.Keeps w ∨ ∃ c h x,
    f = .command c ∧ s.Holds h ∧ s.store.holders[h]? = some x ∧ w = x.downgrade h
  items : (s'.issuedItems = s.issuedItems ∧ ∀ item, s'.Knows item → s.Knows item) ∨
    (s'.issuedItems = s.issuedItems + 1 ∧ ∃ new : Shared Descriptor, new.number = s.issuedItems ∧
      ∀ item, s'.Knows item → s.Knows item ∨ item = new)

variable {f : Frame} {t : Store}

theorem Turn.like (h : Turn s i f s') (hl : Like s' s'') : Turn s i f s'' where
  store := hl.store.trans h.store
  count := Nat.le_trans h.count (Nat.le_of_eq hl.count.symm)
  goesOn := by rw [hl.work]; exact h.goesOn
  others j hj := by rw [hl.work]; exact h.others j hj
  handles := by
    unfold Holds
    rw [hl.handles]
    exact h.handles
  weaks := by
    unfold Keeps
    rw [hl.weaks]
    exact h.weaks
  items := by
    unfold Knows
    rw [hl.items, hl.issuedItems]
    exact h.items

/-- Work under way after a step was so before, or it starts, or ensues from the frame carried on. -/
theorem Turn.mem_work (h : Turn s i f s') {j : Nat} {g : Frame} (hg : g ∈ s'.work j) :
    g ∈ s.work j ∨ g.Starts ∨ j = i ∧ ∃ fs, Ensues s f fs ∧ g ∈ fs ∧ ∀ g' ∈ fs, g' ∈ s'.work i := by
  by_cases hj : j = i
  · subst hj
    rcases h.goesOn with ⟨calls, fs, hcalls, hfs, hwork⟩ | hpanic
    · have hin : ∀ g' ∈ fs, g' ∈ s'.work j := fun g' hg' => by
        rw [hwork]
        exact List.mem_append_right _ (List.mem_append_left _ hg')
      rw [hwork] at hg
      rcases List.mem_append.1 hg with hg | hg
      · obtain ⟨-, steps, rfl⟩ := hcalls g hg
        exact .inr (.inl (.script steps))
      · rcases List.mem_append.1 hg with hg | hg
        · exact .inr (.inr ⟨rfl, fs, hfs, hg, hin⟩)
        · exact .inl hg
    · exact .inl (hpanic.subset hg)
  · rcases h.others j hj with hwork | ⟨-, c, hwork⟩
    · exact .inl (hwork ▸ hg)
    · rw [hwork] at hg
      simp only [List.mem_cons, List.not_mem_nil, or_false] at hg
      rcases hg with rfl | rfl
      · exact .inr (.inl (.command c))
      · exact .inr (.inl .conclude)

/-- Nothing but the store changes, and frames are put on top. -/
theorem Turn.put (hi : i < s.threads.length) (ht : s.store.acts (s.frameActs i f) = t)
    {fs gs calls : List Frame} (hcalls : ∀ c ∈ calls, f.callsBack ∧ ∃ steps, c = .script steps)
    (hfs : Ensues s f fs) (hgs : gs.filter (fun f => !f.isServe) = fs) :
    Turn s i f ((({ s with store := t }).push i gs).push i calls) where
  store := ht.symm
  count := by simp [push, modifyThread]
  goesOn := by
    refine .inl ⟨calls, fs, hcalls, hfs, ?_⟩
    have hkeep : calls.filter (fun f => !f.isServe) = calls := by
      rw [List.filter_eq_self]
      intro c hc
      obtain ⟨-, steps, rfl⟩ := hcalls c hc
      rfl
    rw [work_push, work_push, if_pos ⟨rfl, by simpa [push, modifyThread] using hi⟩,
      if_pos ⟨rfl, hi⟩, hkeep, hgs]
    rfl
  others j hj := by
    left
    rw [work_push, work_push, if_neg fun h => hj h.1, if_neg fun h => hj h.1]
    rfl
  handles _ hh := .inl hh
  weaks _ hw := .inl hw
  items := .inl ⟨rfl, fun _ h => h⟩

theorem Turn.push (hi : i < s.threads.length) (ht : s.store.acts (s.frameActs i f) = t)
    {fs gs : List Frame} (hfs : Ensues s f fs) (hgs : gs.filter (fun f => !f.isServe) = fs) :
    Turn s i f (({ s with store := t }).push i gs) := by
  have hnone : ∀ c ∈ ([] : List Frame), f.callsBack ∧ ∃ steps, c = .script steps := by simp
  have hput := Turn.put hi ht hnone hfs hgs
  exact hput.like ⟨rfl, by simp [Session.push, modifyThread], fun j => by simp [work_push],
    rfl, rfl, rfl, rfl⟩

/-- Nothing but the store changes. -/
theorem Turn.act (ht : s.store.acts (s.frameActs i f) = t) :
    Turn s i f { s with store := t } where
  store := ht.symm
  count := Nat.le_refl _
  goesOn := .inr (List.suffix_refl _)
  others _ _ := .inl rfl
  handles _ hh := .inl hh
  weaks _ hw := .inl hw
  items := .inl ⟨rfl, fun _ h => h⟩

theorem Turn.idle (hf : s.frameActs i f = []) : Turn s i f s :=
  Turn.act (t := s.store) (by rw [hf]; rfl)

theorem like_push_nil (s : Session) (i : Nat) : Like s (s.push i []) :=
  ⟨rfl, by simp [Session.push, modifyThread], fun j => by simp [work_push], rfl, rfl, rfl, rfl⟩

/-- Nothing but the store changes, frames are put on top, and a callback is called. -/
theorem Turn.fire (hi : i < s.threads.length) (hf : f.callsBack)
    (ht : s.store.acts (s.frameActs i f) = t) {fs gs : List Frame} (hfs : Ensues s f fs)
    (hgs : gs.filter (fun f => !f.isServe) = fs)
    (hl : Like (({ s with store := t }).push i gs) s') (script : Option Nat) :
    Turn s i f (s'.fire i script) := by
  obtain ⟨calls, hcalls, hfire⟩ := s'.like_fire i script
  exact (Turn.put hi ht (fun c hc => ⟨hf, hcalls c hc⟩) hfs hgs).like
    ((hl.push i calls).trans hfire)

theorem Turn.panic (ht : s.store.acts (s.frameActs i f) = t) (hl : Like { s with store := t } s')
    (message : String) : Turn s i f (s'.panic i message) where
  store := hl.store.trans ht.symm
  count := by simpa [Session.panic, modifyThread] using Nat.le_of_eq hl.count.symm
  goesOn := by
    right
    have h := (s'.work_panic i message i).1
    rw [hl.work] at h
    exact h
  others j hj := by
    left
    rw [(s'.work_panic i message j).2 hj, hl.work]
    rfl
  handles h hh := by
    left
    obtain ⟨name, hn⟩ := hh
    exact ⟨name, hl.handles ▸ hn⟩
  weaks w hw := by
    left
    obtain ⟨name, hn⟩ := hw
    exact ⟨name, hl.weaks ▸ hn⟩
  items := by
    left
    refine ⟨hl.issuedItems, fun item h => ?_⟩
    obtain ⟨name, hn⟩ := h
    exact ⟨name, hl.items ▸ hn⟩

/-! ## Layouts -/

theorem handOver_eq (s : Session) (i : Nat) (l : Layout) (rest : List Frame) :
    s.handOver i l rest = ({ s with store := s.store.acts (handOverActs s.store l) }).push i
      (handOverFrames s.store l ++ rest) := by
  unfold handOver handOverActs handOverFrames
  rcases (s.store.tree? l.tree).bind (·.config.policy.layoutOn) with _ | _ | q
  · rfl
  · rfl
  · rfl

theorem launch_eq (s : Session) (i : Nat) (r : Request) :
    s.launch i r = ({ s with store := s.store.acts (launchActs s.store r) }).push i
      (launchFrames s.store r) := by
  unfold launch launchActs launchFrames
  split
  · exact s.handOver_eq i r.layout [.confirm r]
  · rfl

theorem Like.launch (h : Like s s') (i : Nat) (r : Request) :
    Like (s.launch i r) (s'.launch i r) := by
  rw [launch_eq, launch_eq, h.store]
  apply Like.push
  exact ⟨rfl, h.count, h.work, h.handles, h.weaks, h.items, h.issuedItems⟩

theorem filter_launchFrames (s : Store) (r : Request) :
    (launchFrames s r).filter (fun f => !f.isServe) = launchFrames s r := by
  refine List.filter_eq_self.2 fun g hg => ?_
  rcases of_mem_launchFrames hg with rfl | rfl | rfl <;> rfl

theorem turn_stepOpenRequest (hi : i < s.threads.length) (call : Call) :
    Turn s i (.openRequest call) (s.stepOpenRequest i call) := by
  have hfs := Ensues.opened (s := s) call
  have hσ : s.store.acts (s.frameActs i (.openRequest call)) =
      (s.store.openRequest call).1.acts (s.openingActs call).tail := rfl
  unfold stepOpenRequest
  unfold openingActs at hσ
  unfold openingFrames at hfs
  generalize s.store.openRequest call = opened at hσ hfs ⊢
  rcases opened with ⟨σ, _ | _ | r | ⟨item, component, factory, handle⟩⟩
  · exact (Turn.act hσ).like ((like_write _ _).trans (like_answer _ _ _))
  · exact (Turn.act hσ).like (like_answer _ _ _)
  · dsimp only
    rw [launch_eq]
    exact Turn.push hi hσ hfs (filter_launchFrames σ r)
  · cases factory with
    | none => exact Turn.push hi hσ hfs rfl
    | some factory => exact Turn.push hi hσ hfs rfl

theorem turn_stepClaimTree (hi : i < s.threads.length) (call : Call) (item : Shared Descriptor)
    (component : Component) (handle : WeakHandle) (listener : Option MeasureListener) :
    Turn s i (.claimTree call item component handle listener)
      (s.stepClaimTree i call item component handle listener) := by
  have hfs := Ensues.claimed (s := s) call item component handle listener
  have hσ : s.store.acts (s.frameActs i (.claimTree call item component handle listener)) =
      (s.store.claimTree call item component handle listener).1.acts
        (s.claimActs call item component handle listener).tail := rfl
  unfold stepClaimTree
  unfold claimActs at hσ
  unfold claimFrames at hfs
  generalize s.store.claimTree call item component handle listener = claimed at hσ hfs ⊢
  rcases claimed with ⟨σ, _ | tree | ⟨config, tree⟩ | config⟩
  · exact (Turn.act hσ).like ((like_write _ _).trans (like_answer _ _ _))
  · dsimp only
    rw [launch_eq]
    exact Turn.push hi hσ hfs (filter_launchFrames σ _)
  · have hl : Like { s with store := σ } ((({ s with store := σ }).write
        [buildingLog call item config]).reportBuilding call.engine config) :=
      (like_write _ _).trans (like_reportBuilding _ _ _)
    refine Turn.like ?_ (hl.launch i _)
    rw [launch_eq]
    exact Turn.push hi hσ hfs (filter_launchFrames σ _)
  · exact Turn.panic hσ ((like_write _ _).trans (like_reportBuilding _ _ _)) _

theorem turn_stepFactory (hi : i < s.threads.length) (factory : Factory) (handle : WeakHandle) :
    Turn s i (.factory factory handle) (s.stepFactory i factory handle) := by
  refine Turn.fire (f := .factory factory handle) (t := s.store) hi rfl rfl (.nothing rfl)
    List.filter_nil ((like_push_nil s i).symm.trans (Like.trans ?_ (like_report _ _))) _
  split
  · exact s.like_view? _
  · exact .refl s

theorem turn_stepLayout (hi : i < s.threads.length) (l : Layout) (sequel : Sequel)
    (stage : Stage) : Turn s i (.layout l sequel stage) (s.stepLayout i l sequel stage) := by
  cases stage with
  | enter =>
      have hσ : s.store.acts (s.frameActs i (.layout l sequel .enter)) =
          (s.store.enterLayout l.tree).1 := rfl
      unfold stepLayout stepEnter
      generalize s.store.enterLayout l.tree = entered at hσ ⊢
      rcases entered with ⟨σ, failure | _ | g⟩
      · exact Turn.push hi hσ (.layout l sequel (.fail failure)) rfl
      · exact Turn.push hi hσ (.layout l sequel .begin) rfl
      · exact Turn.push hi hσ (.layout l sequel (.wait g)) rfl
  | gate g => exact Turn.push (t := s.store) hi rfl (.layout l sequel (.pass g)) rfl
  | measure =>
      have hfs := Ensues.layout (s := s) l sequel (.measured (s.store.measure l))
      have hpush : Turn s i (.layout l sequel .measure)
          (s.push i [.layout l sequel (.settle (s.store.measure l))]) :=
        Turn.push (t := s.store) hi rfl hfs rfl
      unfold stepLayout stepMeasure
      dsimp only
      split
      · split
        · exact Turn.fire (t := s.store) hi rfl rfl hfs rfl (like_report _ _) _
        · exact hpush
      · exact hpush
  | settle size =>
      exact Turn.push hi rfl (.layout l sequel (.settled size _)) rfl
  | notifyMeasured size ready =>
      have hfs := Ensues.layout (s := s) l sequel (.toldMeasured size ready)
      have hacts : s.frameActs i (.layout l sequel (.notifyMeasured size ready)) =
        (s.push i [.layout l sequel (.notifyReady size ready)]).listenerActs l size := rfl
      have hσ := congrArg s.store.acts hacts
      simp only [listenerActs, store_push] at hσ
      simp only [stepLayout, stepNotifyMeasured, store_push]
      generalize (s.store.tree? l.tree).bind (·.config.listener) = listener at hσ ⊢
      rcases listener with _ | ⟨factory, _ | w⟩
      · exact Turn.push (t := s.store) hi hσ hfs rfl
      · have hnone : s.store.acts (s.frameActs i (.layout l sequel (.notifyMeasured size ready))) =
            s.store := by
          simpa using hσ
        exact Turn.fire hi rfl hnone hfs rfl (like_report _ _) _
      · dsimp only [Option.bind_some] at hσ
        by_cases hw : factory.writesHeight
        · simp only [hw, if_true] at hσ ⊢
          split
          · next hres =>
              simp only [hres, if_true] at hσ
              exact Turn.fire hi rfl hσ hfs rfl (like_report _ _) _
          · next hres =>
              simp only [hres] at hσ
              exact Turn.fire hi rfl hσ hfs rfl (like_report _ _) _
        · simp only [hw] at hσ ⊢
          exact Turn.fire hi rfl hσ hfs rfl (like_report _ _) _
  | notifyReady size ready =>
      have hfs := Ensues.layout (s := s) l sequel (.toldReady size ready)
      unfold stepLayout stepNotifyReady
      dsimp only
      split
      · exact Turn.push (t := s.store) hi rfl hfs rfl
      · exact Turn.fire (t := s.store) hi rfl rfl hfs rfl (like_report _ _) _
  | deliver outcome =>
      unfold stepLayout stepDeliver
      cases sequel with
      | commit r =>
          cases outcome with
          | ok size => exact (Turn.act rfl).like ((like_write _ _).trans (like_answer _ _ _))
          | error failure => exact (Turn.idle rfl).like (like_answer _ _ _)
      | background =>
          cases outcome with
          | ok size => exact (Turn.idle rfl).like (like_answer _ _ _)
          | error failure =>
              exact (Turn.idle rfl).like ((like_write _ _).trans (like_answer _ _ _))
      | reply =>
          cases outcome with
          | ok size => exact (Turn.idle rfl).like (like_answer _ _ _)
          | error failure => exact (Turn.idle rfl).like (like_answer _ _ _)

theorem turn_stepConfirm (r : Request) : Turn s i (.confirm r) (s.stepConfirm i r) :=
  (Turn.act rfl).like (like_answer _ _ _)

end Session

end Recycler

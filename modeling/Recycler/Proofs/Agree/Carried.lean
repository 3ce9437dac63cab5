import Recycler.Proofs.Agree.Task

/-!
# Calls and tasks that are carried to their end

A request for a component that is waited for comes to its end with the height of the size
(`exists_commit`). In the background the call comes to its end with its layout
(`reaches_inline`), or leaves it to be carried out by a worker (`reaches_worker`) or on demand
(`carries_command`), and whoever carries it out, the layout ends in the same scene: the one of
`settledFor`, in which the holder is valid and its height is as it was.
-/

namespace Recycler

/-- A thread is given the command and goes `m` steps. -/
def Command.moments (c : Command) (i m : Nat) : List Moment :=
  .give i c :: .replicate m (.carry i)

theorem Command.moments_add (c : Command) (i m m' : Nat) :
    c.moments i (m + m') = c.moments i m ++ .replicate m' (.carry i) := by
  rw [moments, ← List.replicate_append_replicate]
  rfl

namespace Session

/-- A command that is given to a thread can be carried on until `P` holds, and no layout is
committed to a holder on the way. -/
def Carries (s : Session) (i : Nat) (c : Command) (P : Session → Prop) : Prop :=
  ∃ m s', s.follow? (c.moments i m) = some s' ∧
    (∀ a ∈ s.runActs (c.moments i m), a.dictates = false) ∧ P s'

/-- The scene at the end of the layout of a request, once the request is confirmed. -/
def settledFor (d : Session) (r : Request) : Session :=
  (d.laidOut r.layout).modifyStore (·.confirmLayout r)

/-- The scene at the end of a call that handed its layout over to a queue. -/
def handedTo (d : Session) (q : Nat) (r : Request) : Session :=
  (d.modifyStore (·.enqueue q r.layout)).modifyStore (·.confirmLayout r)

variable {c d mid s s₁ : Session} {i k q : Nat} {engine name handle : String} {r : Request}
  {fs : List Frame} {queue : Queue} {count : Option Nat}

theorem Carries.of_reaches (hi : i < s.threads.length) {c : Command}
    {P : Session → Prop}
    (h : ∀ s', At s i [.command c, .conclude] s.begun s' → s'.Reaches i P) : s.Carries i c P := by
  obtain ⟨s', hn, hat⟩ := exists_give hi c
  obtain ⟨m, s'', hrun, hacts, hs''⟩ := h s' hat
  refine ⟨m, s'', follow?_cons_eq_some.2 ⟨s', hn, hrun⟩, ?_, hs''⟩
  rwa [Command.moments, runActs_cons hn]

theorem Carries.trans {P Q : Session → Prop} {c : Command} (h : s.Carries i c P)
    (h' : ∀ s', P s' → s'.Reaches i Q) : s.Carries i c Q := by
  obtain ⟨m, s', hrun, hacts, hs'⟩ := h
  obtain ⟨m', s'', hrun', hacts', hs''⟩ := h' s' hs'
  refine ⟨m + m', s'', ?_, ?_, hs''⟩
  · rw [Command.moments_add]
    exact follow?_trans hrun hrun'
  · rw [Command.moments_add, runActs_append hrun]
    exact fun a ha => (List.mem_append.1 ha).elim (hacts a) (hacts' a)

/-! ## Calls -/

section Calls

variable {call : Call} (hi : i < s.threads.length) (hn : s.engine engine = .ok call.engine)
  (hh : s.holder handle = .ok call.holder)

include hi hn hh

/-- A call comes to where its request comes to. -/
theorem carries_call {background : Bool}
    (hleads : Leads s i [.openRequest { call with background }, .conclude] s.begun fs d) :
    s.Carries i (.layout call.bounds engine call.tag handle background) (At s i fs d) :=
  .of_reaches hi fun s₁ hat =>
    ((leads_requestLayout (c := s.begun) hn hh _).trans hleads) s₁ hat

/-- There is nothing to be laid out. -/
theorem carries_nothing (background : Bool)
    (hnone : (s.store.holders[call.holder]?.bind (·.state.item)).bind (·.value.component?) = none) :
    s.Carries i (.layout call.bounds engine call.tag handle background) fun s' =>
      At s i [] s.begun s' ∧ s'.reply? i = some (if background then .done else .size none) := by
  refine .of_reaches hi fun s₁ hat₁ =>
    (leads_requestLayout (c := s.begun) hn hh _ s₁ hat₁).trans fun s₂ hat₂ => ?_
  obtain ⟨lines, hstep⟩ := stepOpenRequest_of_nothing (s₂.off i) i { call with background }
    (by rw [hat₂.off.store]; exact hnone)
  exact hat₂.reaches_answer rfl rfl (hat₂.off.write lines) hstep

end Calls

theorem Prepared.isCurrent (hp : Prepared c d r.call.holder r.item r.tree) :
    d.store.isCurrent r := by
  obtain ⟨y, hy, ht, hitem⟩ := hp.holder
  exact Store.isCurrent_of_holder hy ht hitem

theorem Prepared.isCurrent_laidOut (hp : Prepared c d r.call.holder r.item r.tree) (l : Layout) :
    (d.laidOut l).store.isCurrent r := by
  obtain ⟨y, hy, ht, hitem⟩ := hp.holder
  obtain ⟨height, hy'⟩ := exists_laidOut l hy
  exact Store.isCurrent_of_holder hy' ht hitem

/-! What a request goes on with. -/

theorem launched_of_acts {acts : List Store.Act} (h : launchActs d.store r = acts) :
    d.launched r = d.modifyStore (·.acts acts) :=
  congrArg (fun acts => { d with store := d.store.acts acts }) h

theorem launch_waited (d : Session) (hwaited : r.call.background = false) :
    launchFrames d.store r = [.layout r.layout (.commit r) .enter] ∧ d.launched r = d := by
  have hactsless : launchActs d.store r = [] := by
    rw [launchActs, hwaited]
    rfl
  rw [launched_of_acts hactsless, launchFrames, hwaited]
  exact ⟨rfl, rfl⟩

theorem launch_inline (hbackground : r.call.background)
    (hexecutor : ∀ q, (d.store.tree? r.tree).bind (·.config.policy.layoutOn) ≠ some (.queue q)) :
    launchFrames d.store r = [.layout r.layout .background .enter, .confirm r] ∧
      d.launched r = d := by
  have hexecutor' : ∀ q, (d.store.tree? r.layout.tree).bind (·.config.policy.layoutOn) ≠
    some (.queue q) := hexecutor
  have hcarried : handOverActs d.store r.layout = [] ∧
      handOverFrames d.store r.layout = [.layout r.layout .background .enter] := by
    rw [handOverActs, handOverFrames]
    generalize (d.store.tree? r.layout.tree).bind (·.config.policy.layoutOn) = executor
      at hexecutor' ⊢
    rcases executor with _ | _ | q
    · exact ⟨rfl, rfl⟩
    · exact ⟨rfl, rfl⟩
    · exact absurd rfl (hexecutor' q)
  have hactsless : launchActs d.store r = [] := by rw [launchActs, if_pos hbackground, hcarried.1]
  rw [launched_of_acts hactsless, launchFrames, if_pos hbackground, hcarried.2]
  exact ⟨rfl, rfl⟩

theorem launch_handedOver (hbackground : r.call.background)
    (hexecutor : (d.store.tree? r.tree).bind (·.config.policy.layoutOn) = some (.queue q)) :
    launchFrames d.store r = [.confirm r] ∧
      d.launched r = d.modifyStore (·.enqueue q r.layout) := by
  have hexecutor' : (d.store.tree? r.layout.tree).bind (·.config.policy.layoutOn) =
    some (.queue q) := hexecutor
  have hqueued : launchActs d.store r = [.enqueue q r.layout] := by
    rw [launchActs, if_pos hbackground, handOverActs, hexecutor']
  rw [launched_of_acts hqueued, launchFrames, if_pos hbackground, handOverFrames, hexecutor']
  exact ⟨rfl, rfl⟩

/-- A request that is waited for comes to the height of the size besides. -/
theorem exists_commit (hb : s.Calm) (hp : Prepared c d r.call.holder r.item r.tree)
    (hat : At s i (launchFrames d.store r ++ [.conclude]) (d.launched r) s₁)
    (hwaited : r.call.background = false) :
    ∃ m s₂, s₁.follow? (.replicate m (.carry i)) = some s₂ ∧
      At s i [] ((d.settledFor r).modifyStore
        (·.takeHeight r.call.holder (some (d.store.measure r.layout)))) s₂ ∧
      s₂.reply? i = some (.size (some (d.store.measure r.layout))) := by
  obtain ⟨e, x, hc⟩ := hp.clear
  rw [(d.launch_waited hwaited).1, (d.launch_waited hwaited).2] at hat
  obtain ⟨m, s₂, hrun, hat₂, hreply⟩ := exists_waited hb hc hat
  refine ⟨m, s₂, hrun, ?_, hreply⟩
  have hcommit := Store.commitLayout_eq (hp.isCurrent_laidOut r.layout)
    (d.store.measure r.layout)
  have hscene : (d.laidOut r.layout).modifyStore
      (·.commitLayout r (d.store.measure r.layout)) = (d.settledFor r).modifyStore
        (·.takeHeight r.call.holder (some (d.store.measure r.layout))) :=
    congrArg (fun store => { d.laidOut r.layout with store }) hcommit
  rwa [hscene] at hat₂

/-- A request in the background whose layout is carried out at once. -/
theorem reaches_inline (hb : s.Calm) (hp : Prepared c d r.call.holder r.item r.tree)
    (hat : At s i (launchFrames d.store r ++ [.conclude]) (d.launched r) s₁)
    (hbackground : r.call.background)
    (hexecutor : ∀ q, (d.store.tree? r.tree).bind (·.config.policy.layoutOn) ≠ some (.queue q)) :
    s₁.Reaches i fun s₂ => At s i [] (d.settledFor r) s₂ ∧ s₂.reply? i = some .done := by
  obtain ⟨e, x, hc⟩ := hp.clear
  obtain ⟨hframes, hlaunched⟩ := launch_inline hbackground hexecutor
  rw [hframes, hlaunched] at hat
  exact (leads_background hb hc _ s₁ hat).trans fun s₂ hat₂ => reaches_confirm hat₂

/-- A request in the background whose layout is handed over to a queue. -/
theorem reaches_handedOver
    (hat : At s i (launchFrames d.store r ++ [.conclude]) (d.launched r) s₁)
    (hbackground : r.call.background)
    (hexecutor : (d.store.tree? r.tree).bind (·.config.policy.layoutOn) = some (.queue q)) :
    s₁.Reaches i fun s₂ => At s i [] (d.handedTo q r) s₂ ∧ s₂.reply? i = some .done := by
  obtain ⟨hframes, hlaunched⟩ := launch_handedOver hbackground hexecutor
  rw [hframes, hlaunched] at hat
  exact reaches_confirm hat

/-! ## Tasks -/

/-- The confirmation makes no difference to the layout. -/
theorem laidOut_confirmed (hp : Prepared c d r.call.holder r.item r.tree) :
    (d.modifyStore (·.confirmLayout r)).laidOut r.layout = d.settledFor r := by
  have hvalidate (u : Session) (hu : u.store.isCurrent r) : u.modifyStore (·.confirmLayout r) =
      u.modifyStore (·.modifyState r.call.holder ({ · with valid := true })) :=
    congrArg (fun store => { u with store }) (if_pos hu)
  rw [settledFor, hvalidate d hp.isCurrent, hvalidate _ (hp.isCurrent_laidOut r.layout)]
  exact (transparent_validate r.call.holder).laidOut d r.layout

theorem dequeue_handedTo (hq : d.store.queues[q]? = some queue) (hempty : queue.waiting = [])
    (r : Request) :
    (d.handedTo q r).store.dequeue q = (d.store.confirmLayout r, some r.layout) := by
  rw [handedTo, modifyStore, modifyStore, Store.confirmLayout_enqueue]
  exact Store.dequeue_enqueue (by rw [Store.queues_confirmLayout]; exact hq) hempty

theorem clear_confirmed {t : TreeRef} {e : Engine} {x : Tree} (hc : d.Clear t e x)
    (r : Request) : (d.modifyStore (·.confirmLayout r)).Clear t e x :=
  hc.congr (d.store.engines_confirmLayout r) fun _ hw => hw

/-- A worker carries the task out. -/
theorem reaches_worker (hb : mid.Calm) (hp : Prepared c d r.call.holder r.item r.tree)
    (hscene : mid.scene = d.handedTo q r) (hq : d.store.queues[q]? = some queue)
    (hempty : queue.waiting = []) (hf : mid.top? k = some (.serve q)) :
    mid.Reaches k (At mid k [] (d.settledFor r)) := by
  obtain ⟨e, x, hc⟩ := hp.clear
  have hdequeue := dequeue_handedTo hq hempty r
  rw [← hscene] at hdequeue
  have htaken : { mid.scene with store := d.store.confirmLayout r } =
      d.modifyStore (·.confirmLayout r) := by
    rw [hscene]
    rfl
  have hclear : (d.modifyStore (·.confirmLayout r)).Clear r.layout.tree e x := clear_confirmed hc r
  refine (reaches_serve hf hdequeue).trans fun s₁ hat₁ => ?_
  rw [htaken] at hat₁
  refine (leads_background hb hclear _ s₁ hat₁).trans fun s₂ hat₂ => ?_
  rw [laidOut_confirmed hp] at hat₂
  have hguarded : At mid k [] (d.settledFor r) ((s₂.off k).stepGuard k q) := by
    unfold stepGuard
    split
    · exact hat₂.off.write _
    · exact hat₂.off
  obtain ⟨s₃, hn₃, hat₃, -⟩ := hat₂.carry rfl hguarded
  exact .step hat₂.top? rfl hn₃ hat₃

theorem eq_some_of_expect {α : Type} {field : String} {value : Option α} {a : α}
    (h : expect field value = .ok a) : value = some a := by
  cases value with
  | none => cases h
  | some b => rw [Except.ok.inj h]

theorem manualQueue_eq_ok : s.manualQueue name = .ok q ↔
    ∃ e queue, s.registers.executors.get? name = some e ∧ e.queue? = some q ∧
      s.store.queues[q]? = some queue ∧ queue.hasWorker = false := by
  constructor
  · intro hq
    obtain ⟨e, he, hq⟩ := ok_of_bind hq
    obtain ⟨p, hp, hq⟩ := ok_of_bind hq
    obtain ⟨queue, hqueue, hq⟩ := ok_of_bind hq
    split at hq
    · cases hq
    · next hworker =>
        obtain rfl := Except.ok.inj hq
        exact ⟨e, queue, eq_some_of_need he, eq_some_of_expect hp, eq_some_of_expect hqueue,
          by simpa using hworker⟩
  · rintro ⟨e, queue, he, hq, hqueue, hworker⟩
    simp only [manualQueue, he, need, hq, expect, hqueue, hworker, bind, Except.bind]
    rfl

/-- The queue of an executor is found again after a layout was handed over to it. -/
theorem manualQueue_handedTo (hp : Prepared c d r.call.holder r.item r.tree)
    (hq : c.manualQueue name = .ok q) : (d.handedTo q r).manualQueue name = .ok q := by
  obtain ⟨e, queue, he, heq, hqueue, hworker⟩ := manualQueue_eq_ok.1 hq
  refine manualQueue_eq_ok.2 ⟨e, { queue with waiting := queue.waiting ++ [r.layout] }, ?_, heq, ?_,
    hworker⟩
  · exact hp.registers ▸ he
  · rw [handedTo, modifyStore, Store.queues_confirmLayout]
    simp [modifyStore, Store.enqueue, Store.modifyQueue, hp.queues, hqueue]

/-- A command carries out what waits in a queue. -/
theorem leads_command (count : Option Nat) (hq : c.manualQueue name = .ok q)
    (fs : List Frame) :
    Leads s i (.command (.runWaiting name count) :: fs) c (.runWaiting q count 0 :: fs) c := by
  refine .step rfl fun s₁ hat => ⟨rfl, ?_⟩
  have hqueue : (s₁.off i).manualQueue name = .ok q := by
    rw [← hq, manualQueue, manualQueue, hat.off.registers, hat.off.store]
  rw [stepFrame, stepCommand, perform, runWaiting, hqueue]
  exact hat.off.pushPlain [_] rfl

/-- A thread that is told to carries the task out. -/
theorem carries_command (hb : mid.Calm) (hp : Prepared c d r.call.holder r.item r.tree)
    (hscene : mid.scene = d.handedTo q r) (hq : d.store.queues[q]? = some queue)
    (hempty : queue.waiting = []) (hk : k < mid.threads.length)
    (hname : mid.manualQueue name = .ok q) (hcount : count ≠ some 0) :
    mid.Carries k (.runWaiting name count) fun s₂ =>
      ∃ e, At mid k [] e s₂ ∧ e.after mid.events = d.settledFor r := by
  obtain ⟨e, x, hc⟩ := hp.clear
  have hdequeue : mid.begun.store.dequeue q = (d.store.confirmLayout r, some r.layout) := by
    show mid.scene.store.dequeue q = _
    rw [hscene]
    exact dequeue_handedTo hq hempty r
  have hscripts : mid.scripts = d.scripts := by
    show mid.scene.scripts = d.scripts
    rw [hscene]
    rfl
  -- But for the events that were reported before, the layout begins in the scene it is made for.
  let taken : Session := { mid.begun with store := d.store.confirmLayout r }
  have htaken : taken.after mid.events = d.modifyStore (·.confirmLayout r) := by
    have hmid : { mid.scene with store := d.store.confirmLayout r } =
        d.modifyStore (·.confirmLayout r) := by
      rw [hscene]
      rfl
    rw [← hmid, after]
    simp [taken, begun, scene]
  have hclear : taken.Clear r.layout.tree e x :=
    (clear_confirmed hc r).congr rfl fun _ hw => by
      rw [OnlyWrites] at hw ⊢
      rwa [show taken.scripts = d.scripts from hscripts]
  refine .of_reaches hk fun s₁ hat₁ => ?_
  refine (leads_command (c := mid.begun) count hname _ s₁ hat₁).trans fun s₂ hat₂ => ?_
  refine (leads_runWaiting hb hdequeue ?_ hcount hclear _ s₂ hat₂).trans fun s₃ hat₃ => ?_
  · exact Store.snd_dequeue_of_empty (by rw [Store.queues_confirmLayout]; exact hq) hempty
  · obtain ⟨s₄, hn₄, hat₄, -⟩ := hat₃.conclude
    refine .step hat₃.top? rfl hn₄ ⟨_, hat₄, ?_⟩
    rw [← laidOut_confirmed hp, ← htaken]
    exact ((transparent_after mid.events).laidOut taken r.layout).symm

/-- A thread that is told to carry out what waits in an empty queue has nothing to do. -/
theorem carries_command_of_empty (hk : k < mid.threads.length)
    (hname : mid.manualQueue name = .ok q) (count : Option Nat)
    (hempty : ∀ queue, mid.store.queues[q]? = some queue → queue.waiting = []) :
    mid.Carries k (.runWaiting name count) (At mid k [] mid.begun) := by
  obtain ⟨e, queue, -, -, hq, -⟩ := manualQueue_eq_ok.1 hname
  have hnone := Store.snd_dequeue_of_empty hq (hempty queue hq)
  refine .of_reaches hk fun s₁ hat₁ => ?_
  refine (leads_command (c := mid.begun) count hname _ s₁ hat₁).trans fun s₂ hat₂ => ?_
  have hstep : ∃ a, (s₂.off k).stepFrame k (.runWaiting q count 0) = (s₂.off k).answer k a := by
    have hstore : (s₂.off k).store = mid.store := hat₂.off.store
    rw [stepFrame, stepRunWaiting, hstore]
    split
    · exact ⟨_, rfl⟩
    · split
      · exact ⟨_, rfl⟩
      · next heq =>
          rw [heq] at hnone
          cases hnone
  obtain ⟨a, hstep⟩ := hstep
  obtain ⟨m, s₃, hrun, hacts, hat₃, -⟩ := hat₂.reaches_answer rfl rfl hat₂.off hstep
  exact ⟨m, s₃, hrun, hacts, hat₃⟩

end Session
end Recycler

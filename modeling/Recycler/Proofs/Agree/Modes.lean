import Recycler.Proofs.Agree.Carried

/-!
# Layouts that are waited for and layouts in the background

A layout of a holder may be waited for, or run in the background and be carried out right after the
call, by whoever the execution policy leaves it to. Both ways end in the same session but for the
height of the holder (`agree_of_calm`): the one that is waited for leaves the height of its size
there, and the one in the background only what a measure listener writes. This needs callbacks
that do nothing but write heights and a tree that was not released behind the back of its holder
(`Released.modes_differ`).
-/

namespace Recycler

/-- Who carries out the task of a layout in the background. -/
inductive Carrier
  /-- The caller, within the call. -/
  | caller
  /-- A thread that is told to carry out what waits in an executor's queue. -/
  | command (thread : Nat) (executor : String) (count : Option Nat)
  /-- The worker of a queue. -/
  | worker (thread : Nat)

namespace Carrier

/-- The moments of a task whose thread goes `m` steps. -/
def moments (m : Nat) : Carrier → List Moment
  | caller => []
  | command k executor count => (Command.runWaiting executor count).moments k m
  | worker k => .replicate m (.carry k)

/-- What was reported up to the session `mid` and is not with the session at the end of the task. -/
def before (mid : Session) : Carrier → List Event
  | command .. => mid.events
  | _ => []

/-- Who carries out what is handed over to an executor in a call from the session `s` to the session
`mid`. -/
def Serves (s mid : Session) (executor : Option Executor) : Carrier → Prop
  | caller => ∀ q, executor ≠ some (.queue q)
  | command k name count => k < s.threads.length ∧ count ≠ some 0 ∧
      ∃ q, executor = some (.queue q) ∧ s.manualQueue name = .ok q
  | worker k => ∃ q queue, executor = some (.queue q) ∧ s.store.queues[q]? = some queue ∧
      mid.top? k = some (.serve q)

end Carrier

namespace Session

open Store (lastWritten?)

/-- A command that was given to a thread was carried out to its end, with a reply. -/
structure CarriesOut (s : Session) (i : Nat) (c : Command) (m : Nat) (r : Reply) (s' : Session) :
    Prop where
  run : s.follow? (c.moments i m) = some s'
  reply : s'.reply? i = some r
  work : ∀ j, s'.work j = s.work j

/-- A layout of the holder `h` in the background, which was asked in the session `s` and came to its
end in the session `s₂`, agrees with the same layout that was waited for and came to its end in the
session `s₁`. -/
structure Agree (s : Session) (h : Nat) (size : Option Size) (s₁ : Session) (ms : List Moment)
    (before : List Event) (s₂ : Session) : Prop where
  run : s.follow? ms = some s₂
  work : ∀ j, s₂.work j = s.work j
  /-- Everything but the threads and the log lines is the same, the height of the holder apart. -/
  scene : s₁.scene = (s₂.scene.after before).modifyStore (·.takeHeight h size)
  /-- In the background the height is as before, or as it was written last. -/
  height : ∀ x y, s.store.holders[h]? = some x → s₂.store.holders[h]? = some y →
    y.state.height = (lastWritten? (x.downgrade h) (s.runActs ms)).or x.state.height

/-- A layout that is asked by the command `c₁` and is waited for, and the same layout asked by the
command `c₂` in the background, both on thread `i` in the session `s`. The first call ends in the
session `s₁`, the second one in `mid`, and then comes the task of the second one, whoever carries it
out. -/
structure BothWays (s : Session) (i h : Nat) (c₁ c₂ : Command) (size : Option Size)
    (m₁ m₂ : Nat) (s₁ mid : Session) : Prop where
  waited : CarriesOut s i c₁ m₁ (.size size) s₁
  background : CarriesOut s i c₂ m₂ .done mid
  agree : ∀ w : Carrier, w.Serves s mid (s.store.layoutOn? h) → ∃ m s₂,
    Agree s h size s₁ (c₂.moments i m₂ ++ w.moments m) (w.before mid) s₂

variable {s s₁ s₂ mid : Session} {i h n : Nat} {x : Holder} {engine handle : String}
  {size : Option Size} {item : Shared Descriptor} {component : Component}

theorem agree_of_runs {ms ns : List Moment} {before : List Event}
    (hcall : s.follow? ms = some mid) (hcallActs : ∀ a ∈ s.runActs ms, a.dictates = false)
    (htask : mid.follow? ns = some s₂) (htaskActs : ∀ a ∈ mid.runActs ns, a.dictates = false)
    (hwork : ∀ j, s₂.work j = s.work j)
    (hscene : s₁.scene = (s₂.scene.after before).modifyStore (·.takeHeight h size)) :
    Agree s h size s₁ (ms ++ ns) before s₂ where
  run := follow?_trans hcall htask
  work := hwork
  scene := hscene
  height x y hx hy := by
    rw [store_follow? (follow?_trans hcall htask)] at hy
    refine Store.height_acts_of_not_dictates hx (fun a ha => ?_) hy
    rw [runActs_append hcall] at ha
    exact (List.mem_append.1 ha).elim (hcallActs a) (htaskActs a)

theorem waiting_of_empty (hempty : ∀ l, ¬ s.store.Waits l) {q : Nat} {queue : Queue}
    (hq : s.store.queues[q]? = some queue) : queue.waiting = [] :=
  List.eq_nil_iff_forall_not_mem.2 fun l hl => hempty l ⟨queue, List.mem_of_getElem? hq, hl⟩

theorem Plain.begun (hplain : s.Plain n x.state) : s.begun.Plain n x.state where
  live t ht := by
    obtain ⟨e, tree, hc⟩ := hplain.live t ht
    exact ⟨e, tree, hc.congr rfl fun _ hw => hw⟩
  vacant ht := by
    obtain ⟨e, ho⟩ := hplain.vacant ht
    exact ⟨e, ho.engine, ho.gate, ho.armed, ho.accepts, ho.measure, ho.factory, ho.ready⟩

section Call

variable {call : Call} (hi : i < s.threads.length) (hn : s.engine engine = .ok call.engine)
  (hh : s.holder handle = .ok call.holder)

include hi hn hh

/-- Where there is nothing to be laid out, nothing happens in either way. -/
theorem bothWays_of_nothing (hempty : ∀ l, ¬ s.store.Waits l)
    (hnone : (s.store.holders[call.holder]?.bind (·.state.item)).bind (·.value.component?) = none) :
    ∃ m₁ m₂ s₁ mid, BothWays s i call.holder (.layout call.bounds engine call.tag handle false)
      (.layout call.bounds engine call.tag handle true) none m₁ m₂ s₁ mid := by
  obtain ⟨m₁, s₁, hrun₁, -, hat₁, hreply₁⟩ := carries_nothing hi hn hh false hnone
  obtain ⟨m₂, mid, hrun₂, hacts₂, hat₂, hreply₂⟩ := carries_nothing hi hn hh true hnone
  have hsame : s₁.scene = mid.scene := hat₁.scene.trans hat₂.scene.symm
  refine ⟨m₁, m₂, s₁, mid, ⟨hrun₁, hreply₁, hat₁.ends⟩, ⟨hrun₂, hreply₂, hat₂.ends⟩, fun w hw => ?_⟩
  cases w with
  | caller | worker =>
      exact ⟨0, mid, agree_of_runs hrun₂ hacts₂ rfl (fun a ha => by cases ha) hat₂.ends hsame⟩
  | command k name count =>
      obtain ⟨hk, -, q, -, hname⟩ := hw
      have hname' : mid.manualQueue name = .ok q := by
        rw [← hname, manualQueue, manualQueue, hat₂.registers, hat₂.store]
        rfl
      obtain ⟨m, s₂, hrun, hacts, hat⟩ := carries_command_of_empty (hat₂.count ▸ hk)
        hname' count fun queue hq => waiting_of_empty hempty (hat₂.store ▸ hq)
      -- The task begins without the events of the call, and they are put in front again.
      have hbegun : mid.begun.after mid.events = mid.scene := by
        simp [begun, after, scene]
      refine ⟨m, s₂, agree_of_runs hrun₂ hacts₂ hrun hacts
        (fun j => (hat.ends j).trans (hat₂.ends j)) ?_⟩
      rw [hsame, ← hbegun, ← hat.scene]
      rfl

section Component

variable {d : Session} {t : TreeRef}
  (hb : s.Calm) (hp : Prepared s.begun d call.holder item t)
  (hleads : ∀ background fs, let r := call.request background item component t
    Leads s i (.openRequest r.call :: fs) s.begun (launchFrames d.store r ++ fs) (d.launched r))

include hb hp hleads

/-- The call that is waited for. -/
theorem exists_waited_call : ∃ size m s₁,
    CarriesOut s i (.layout call.bounds engine call.tag handle false) m (.size (some size)) s₁ ∧
    s₁.scene = (d.settledFor (call.request true item component t)).modifyStore
      (·.takeHeight call.holder (some size)) := by
  obtain ⟨m, s', hrun, -, hat⟩ := carries_call hi hn hh (hleads false [.conclude])
  obtain ⟨m', s₁, hrun', hat₁, hreply⟩ := exists_commit hb hp hat rfl
  refine ⟨_, m + m', s₁, ⟨?_, hreply, hat₁.ends⟩, hat₁.scene⟩
  rw [Command.moments_add]
  exact follow?_trans hrun hrun'

/-- The layout is carried out within the call in the background. -/
theorem bothWays_of_inline (hexecutor : ∀ q, s.store.layoutOn? call.holder ≠ some (.queue q)) :
    ∃ size m₁ m₂ s₁ mid, BothWays s i call.holder
      (.layout call.bounds engine call.tag handle false)
      (.layout call.bounds engine call.tag handle true) (some size) m₁ m₂ s₁ mid := by
  obtain ⟨size, m₁, s₁, hcall, hscene⟩ := exists_waited_call hi hn hh hb hp hleads
  have hbackground := (carries_call hi hn hh (hleads true [.conclude])).trans fun s' hat =>
    reaches_inline hb hp hat rfl (hp.executor ▸ hexecutor)
  obtain ⟨m₂, mid, hrun, hacts, hat, hreply⟩ := hbackground
  refine ⟨size, m₁, m₂, s₁, mid, hcall, ⟨hrun, hreply, hat.ends⟩, fun w hw => ?_⟩
  cases w with
  | caller =>
      refine ⟨0, mid, agree_of_runs hrun hacts rfl (fun a ha => by cases ha) hat.ends ?_⟩
      rw [hscene, ← hat.scene]
      rfl
  | command =>
      obtain ⟨-, -, q, hq, -⟩ := hw
      exact absurd hq (hexecutor q)
  | worker =>
      obtain ⟨q, -, hq, -⟩ := hw
      exact absurd hq (hexecutor q)

/-- The layout is handed over to a queue. -/
theorem bothWays_of_queue (hempty : ∀ l, ¬ s.store.Waits l) {q : Nat}
    (hexecutor : s.store.layoutOn? call.holder = some (.queue q)) :
    ∃ size m₁ m₂ s₁ mid, BothWays s i call.holder
      (.layout call.bounds engine call.tag handle false)
      (.layout call.bounds engine call.tag handle true) (some size) m₁ m₂ s₁ mid := by
  obtain ⟨size, m₁, s₁, hcall, hscene⟩ := exists_waited_call hi hn hh hb hp hleads
  have hbackground := (carries_call hi hn hh (hleads true [.conclude])).trans fun s' hat =>
    reaches_handedOver hat rfl (hp.executor.trans hexecutor)
  obtain ⟨m₂, mid, hrun, hacts, hat, hreply⟩ := hbackground
  refine ⟨size, m₁, m₂, s₁, mid, hcall, ⟨hrun, hreply, hat.ends⟩, fun w hw => ?_⟩
  have hcalm := hb.ends hat
  cases w with
  | caller => exact absurd hexecutor (hw q)
  | command k name count =>
      obtain ⟨hk, hcount, p, hpq, hname⟩ := hw
      obtain rfl : q = p := Executor.queue.inj (Option.some.inj (hexecutor.symm.trans hpq))
      obtain ⟨-, queue, -, -, hqueue, -⟩ := manualQueue_eq_ok.1 hname
      have hname' : mid.scene.manualQueue name = .ok q := by
        rw [hat.scene]
        exact manualQueue_handedTo hp hname
      obtain ⟨m, s₂, hrun₂, hacts₂, e, hat₂, hafter⟩ := carries_command hcalm hp hat.scene
        (hp.queues ▸ hqueue) (waiting_of_empty hempty hqueue) (hat.count ▸ hk) hname' hcount
      refine ⟨m, s₂, agree_of_runs hrun hacts hrun₂ hacts₂
        (fun j => (hat₂.ends j).trans (hat.ends j)) ?_⟩
      rw [hscene, hat₂.scene, ← hafter]
      rfl
  | worker k =>
      obtain ⟨p, queue, hpq, hqueue, hf⟩ := hw
      obtain rfl : q = p := Executor.queue.inj (Option.some.inj (hexecutor.symm.trans hpq))
      obtain ⟨m, s₂, hrun₂, hacts₂, hat₂⟩ := reaches_worker hcalm hp hat.scene
        (hp.queues ▸ hqueue) (waiting_of_empty hempty hqueue) hf
      refine ⟨m, s₂, agree_of_runs hrun hacts hrun₂ hacts₂
        (fun j => (hat₂.ends j).trans (hat.ends j)) ?_⟩
      rw [hscene, hat₂.scene]
      rfl

end Component

end Call

/-- A layout that is waited for and the same layout in the background come to the same, whoever
carries the one in the background out right after the call. -/
theorem agree_of_calm (hb : s.Calm) (hempty : ∀ l, ¬ s.store.Waits l) (hi : i < s.threads.length)
    (hn : s.engine engine = .ok n) (hh : s.holder handle = .ok h)
    (hx : s.store.holders[h]? = some x)
    (hplain : (x.state.item.bind (·.value.component?)).isSome → s.Plain n x.state)
    (tag : String) (bounds : Bounds) :
    ∃ size m₁ m₂ s₁ mid, size.isSome = (x.state.item.bind (·.value.component?)).isSome ∧
      BothWays s i h (.layout bounds engine tag handle false)
        (.layout bounds engine tag handle true) size m₁ m₂ s₁ mid := by
  let call : Call := ⟨h, n, tag, bounds, true⟩
  have hn' : s.engine engine = .ok call.engine := hn
  have hh' : s.holder handle = .ok call.holder := hh
  cases hcomponent : x.state.item.bind (·.value.component?) with
  | none =>
      have hnone : (s.store.holders[call.holder]?.bind (·.state.item)).bind
          (·.value.component?) = none := by
        rw [hx]
        exact hcomponent
      obtain ⟨m₁, m₂, s₁, mid, hboth⟩ := bothWays_of_nothing hi hn' hh' hempty hnone
      exact ⟨none, m₁, m₂, s₁, mid, rfl, hboth⟩
  | some component =>
      obtain ⟨item, hitem, hvalue⟩ := Option.bind_eq_some_iff.1 hcomponent
      have hheld : s.begun.Holds call.holder := holds_of_holder hh
      have hbegun : s.begun.Plain call.engine x.state := (hplain (by rw [hcomponent]; rfl)).begun
      obtain ⟨d, t, hp, hleads⟩ := exists_prepared hb call hheld hx hitem hvalue hbegun
      have hboth : ∃ size m₁ m₂ s₁ mid, BothWays s i h (.layout bounds engine tag handle false)
          (.layout bounds engine tag handle true) (some size) m₁ m₂ s₁ mid := by
        by_cases hq : ∃ q, s.store.layoutOn? h = some (.queue q)
        · obtain ⟨q, hq⟩ := hq
          exact bothWays_of_queue hi hn' hh' hb hp hleads hempty hq
        · exact bothWays_of_inline hi hn' hh' hb hp hleads fun q h => hq ⟨q, h⟩
      obtain ⟨size, m₁, m₂, s₁, mid, hboth⟩ := hboth
      exact ⟨some size, m₁, m₂, s₁, mid, rfl, hboth⟩

/-! ## A layout that is handed over -/

theorem calm_of_idle (hidle : ∀ t ∈ s.threads, t.stack = []) : s.Calm := by
  intro j f hf
  rw [work] at hf
  cases ht : s.threads[j]? with
  | none =>
      rw [ht] at hf
      cases hf
  | some t =>
      rw [ht, Option.map_some, Option.getD_some, hidle t (List.mem_of_getElem? ht)] at hf
      cases hf

theorem not_waits_of_empty (hempty : ∀ queue ∈ s.store.queues, queue.waiting = []) (l : Layout) :
    ¬ s.store.Waits l := by
  rintro ⟨queue, hqueue, hl⟩
  rw [hempty queue hqueue] at hl
  cases hl

/-- The holder `h` is told to be laid out by the engine `e`. -/
def asked (background : Bool) : Command := .layout default "e" "" "h" background

namespace Handed

/-- Its listeners write the height. -/
def writing : Factory := ⟨some "f", true, none, none⟩

/-- A holder whose layouts in the background are carried out on demand. -/
def preparations : List Moment :=
  told (.component "c" "c" .byName) ++ told (.item "d" (.component "c") []) ++
    told (.engine "e" .standard {}) ++ told (.executor "m" .manual) ++
    told (.acquire "d" [.layoutOn "m"] (some writing) "shared" (some "h"))

def start : Session := ofProgram { steps := [], scripts := [] }

def ready : Session := (start.follow? preparations).get (by decide)

def shown : Holder := (ready.store.holders[0]?).get (by decide)

def maker : Engine := (ready.store.engines[0]?).get (by decide)

/-- Whoever told the holder to be laid out then tells the executor to carry the layout out. -/
def onDemand : Carrier := .command mainThread "m" none

theorem plain_ready : ready.Plain 0 shown.state where
  live t ht := by
    have hnone : shown.state.slot.tree? = none := by decide
    rw [hnone] at ht
    cases ht
  vacant _ := by
    refine ⟨maker, (Option.some_get _).symm, by decide, by decide, by decide, by decide,
      fun f hf => ?_, fun listener hl => ?_⟩
    · have hfactory : shown.state.factory = some writing := by decide
      obtain rfl := Option.some.inj (hfactory.symm.trans hf)
      decide
    · have hnone : shown.state.readyListener = none := by decide
      rw [hnone] at hl
      cases hl

theorem both_ways_agree :
    ready.Reachable ∧ ready.Calm ∧ (∀ l, ¬ ready.store.Waits l) ∧ ready.Plain 0 shown.state ∧
      ∃ size m₁ m₂ m s₁ mid s₂,
        CarriesOut ready mainThread (asked false) m₁ (.size (some size)) s₁ ∧
        CarriesOut ready mainThread (asked true) m₂ .done mid ∧
        Agree ready 0 (some size) s₁
          ((asked true).moments mainThread m₂ ++ onDemand.moments m) mid.events s₂ := by
  have hcalm : ready.Calm := calm_of_idle (by decide)
  have hempty : ∀ l, ¬ ready.store.Waits l := not_waits_of_empty (by decide)
  have hthread : mainThread < ready.threads.length := by decide
  have hengine : ready.engine "e" = .ok 0 := rfl
  have hholder : ready.holder "h" = .ok 0 := rfl
  have hitem : ready.store.holders[0]? = some shown := (Option.some_get _).symm
  obtain ⟨size, m₁, m₂, s₁, mid, hsize, hboth⟩ := agree_of_calm hcalm hempty hthread hengine
    hholder hitem (fun _ => plain_ready) "" default
  have hcomponent : (shown.state.item.bind (·.value.component?)).isSome = true := by decide
  obtain ⟨size, rfl⟩ := Option.isSome_iff_exists.1 (hsize.trans hcomponent)
  have hserves : onDemand.Serves ready mid (ready.store.layoutOn? 0) :=
    ⟨hthread, by decide, 0, by decide, rfl⟩
  obtain ⟨m, s₂, hagree⟩ := hboth.agree onDemand hserves
  exact ⟨⟨_, preparations, (Option.some_get _).symm⟩, hcalm, hempty, plain_ready, size, m₁, m₂, m,
    s₁, mid, s₂, hboth.waited, hboth.background, hagree⟩

end Handed

/-! ## A tree that was released -/

namespace Released

/-- A tree that is laid out and then released behind the back of its holder. -/
def preparations : List Moment :=
  told (.component "c" "c" .byName) ++ told (.item "d" (.component "c") []) ++
    told (.engine "e" .standard {}) ++ told (.acquire "d" [] none "shared" (some "h")) ++
    (asked false).moments mainThread 10 ++
    told (.onTree "e" (some 0) .release) ++ told (.onHolder "h" .invalidate)

def start : Session := ofProgram { steps := [], scripts := [] }

def broken : Session := (start.follow? preparations).get (by decide)

def waited : Session :=
  (broken.follow? ((asked false).moments mainThread 5)).get (by decide)

def background : Session :=
  (broken.follow? ((asked true).moments mainThread 6)).get (by decide)

/-- The layout that is waited for fails and leaves the holder as it was, and the one in the
background leaves it valid. -/
theorem modes_differ :
    broken.Reachable ∧ broken.Calm ∧ (∀ l, ¬ broken.store.Waits l) ∧
      (∀ e ∈ broken.store.engines, e.gate = none ∧ e.armed = none) ∧
      (∀ x ∈ broken.store.holders, x.state.factory = none ∧ x.state.readyListener = none) ∧
      broken.follow? ((asked false).moments mainThread 5) = some waited ∧
      waited.reply? mainThread = some (.trouble (.failure .released)) ∧
      (∀ t ∈ waited.threads, t.stack = []) ∧
      broken.follow? ((asked true).moments mainThread 6) = some background ∧
      background.reply? mainThread = some .done ∧
      (∀ t ∈ background.threads, t.stack = []) ∧
      waited.store.holders.map (·.state.valid) = [false] ∧
      background.store.holders.map (·.state.valid) = [true] :=
  ⟨⟨_, preparations, (Option.some_get _).symm⟩, calm_of_idle (by decide),
    not_waits_of_empty (by decide), by decide, by decide, (Option.some_get _).symm, by decide,
    by decide, (Option.some_get _).symm, by decide, by decide, by decide, by decide⟩

end Released

end Session
end Recycler

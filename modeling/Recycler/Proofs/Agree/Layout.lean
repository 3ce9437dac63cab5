import Recycler.Proofs.Agree.Callback

/-!
# Layouts as a whole

What a layout comes to from its first step to its last, with all callbacks in between, if those do
nothing but write heights through weak handles (`leads_layout`). The outcome depends on the engine,
the tree, the registers and the scripts, and on nothing else a session has: whatever leaves these
alone can just as well happen afterwards (`Transparent.laidOut`).
-/

namespace Recycler.Session

/-- The session after the root of a layout was measured. -/
def measured (s : Session) (l : Layout) : Session :=
  match s.store.engines[l.tree.engine]? with
  | some e =>
    if e.manner.reportsMeasuring then
      (s.report (.measuring e.name l.root.name l.bounds)).called e.manner.script
    else s
  | none => s

/-- The session in which a measure listener heard of a size, before its script is called. -/
def heard (s : Session) (listener : MeasureListener) (size : Size) : Session :=
  let f := listener.factory
  match listener.handle with
  | some handle =>
    if f.writesHeight then
      let written := (s.resolve? handle).isSome
      (s.modifyStore fun σ => if written then σ.writeHeight handle size.height else σ).report
        (.measured f.name size (some written))
    else s.report (.measured f.name size none)
  | none => s.report (.measured f.name size none)

/-- The session after the measure listener of a tree was told a size. -/
def toldMeasured (s : Session) (l : Layout) (size : Size) : Session :=
  match (s.store.tree? l.tree).bind fun t => t.config.listener with
  | none => s
  | some listener => (s.heard listener size).called listener.factory.listenerScript

/-- The session after the listener for new layouts was told. -/
def toldReady (s : Session) (l : Layout) (ready : Option ReadyListener) : Session :=
  match ready with
  | none => s
  | some listener =>
    let mounted := (s.store.tree? l.tree).any (·.mounted)
    (s.report (.ready listener.name mounted)).called listener.script

/-- The session after a layout, short of what becomes of its outcome. -/
def laidOut (s : Session) (l : Layout) : Session :=
  let size := s.store.measure l
  let s := s.measured l
  let ready := (s.store.tree? l.tree).bind (·.readyListener)
  ((s.modifyStore (·.settleLayout l size)).toldMeasured l size).toldReady l ready

variable {b c d s : Session} {i : Nat} {fs : List Frame} {l : Layout} {sequel : Sequel}
  {e : Engine} {x : Tree}

/-- Nothing stands in the way of layouts of the tree `t`, which is the tree `x` of the engine `e`,
and their callbacks only write heights. -/
structure Clear (c : Session) (t : TreeRef) (e : Engine) (x : Tree) : Prop where
  engine : c.store.engines[t.engine]? = some e
  tree : c.store.tree? t = some x
  gate : e.gate = none
  armed : e.armed = none
  released : x.released = false
  measure : c.OnlyWrites e.manner.script
  listener : ∀ listener, x.config.listener = some listener →
    c.OnlyWrites listener.factory.listenerScript
  ready : ∀ listener, x.readyListener = some listener → c.OnlyWrites listener.script

theorem Anchored.stage {stage : Stage} (hf : c.Anchored (.layout l sequel stage)) (stage' : Stage) :
    c.Anchored (.layout l sequel stage') :=
  ⟨rfl, rfl, fun h hh => hf.held h (by cases sequel <;> exact hh)⟩

theorem At.pushStage {stage : Stage} (hat : At b i (.layout l sequel stage :: fs) c s)
    (stage' : Stage) : At b i (.layout l sequel stage' :: fs) c
      ((s.off i).push i [.layout l sequel stage']) :=
  At.push hat.off [.layout l sequel stage'] fun _ hg => List.mem_singleton.1 hg ▸
    (hat.anchored _ List.mem_cons_self).stage stage'

theorem Clear.enterLayout {t : TreeRef} (hc : c.Clear t e x) :
    c.store.enterLayout t = (c.store, .free none) := by
  unfold Store.enterLayout
  rw [hc.engine, hc.tree]
  simp [hc.released, hc.armed, hc.gate]

theorem leads_enter (hc : c.Clear l.tree e x) :
    Leads b i (.layout l sequel .enter :: fs) c (.layout l sequel .measure :: fs) c := by
  refine .step rfl fun s hat => ⟨rfl, ?_⟩
  have henter : (s.off i).store.enterLayout l.tree = ((s.off i).store, .free none) := by
    rw [hat.off.store, hc.enterLayout]
  rw [stepFrame, stepLayout, stepEnter, henter]
  exact hat.pushStage _

theorem leads_measure (hb : b.Calm) (hc : c.Clear l.tree e x) :
    Leads b i (.layout l sequel .measure :: fs) c
      (.layout l sequel (.settle (c.store.measure l)) :: fs) (c.measured l) := by
  have hstep (s : Session) (hat : At b i (.layout l sequel .measure :: fs) c s) :
      (s.off i).stepFrame i (.layout l sequel .measure) =
        let u := (s.off i).push i [.layout l sequel (.settle (c.store.measure l))]
        if e.manner.reportsMeasuring then
          (u.report (.measuring e.name l.root.name l.bounds)).fire i e.manner.script
        else u := by
    rw [stepFrame, stepLayout, stepMeasure, hat.off.store]
    dsimp only
    rw [store_push, hat.off.store, hc.engine]
  have hmeasured : c.measured l = if e.manner.reportsMeasuring then
      (c.report (.measuring e.name l.root.name l.bounds)).called e.manner.script else c := by
    rw [measured, hc.engine]
  cases hreports : e.manner.reportsMeasuring with
  | true =>
      rw [hmeasured, if_pos hreports]
      refine .fire hb rfl hc.measure fun s hat =>
        ⟨rfl, ((s.off i).push i [.layout l sequel (.settle (c.store.measure l))]).report _,
          (hat.pushStage _).report _, ?_⟩
      rw [hstep s hat, hreports]
      rfl
  | false =>
      rw [hmeasured, hreports]
      refine .step rfl fun s hat => ⟨rfl, ?_⟩
      rw [hstep s hat, hreports]
      exact hat.pushStage _

theorem leads_settle (size : Size) :
    Leads b i (.layout l sequel (.settle size) :: fs) c
      (.layout l sequel
        (.notifyMeasured size ((c.store.tree? l.tree).bind (·.readyListener))) :: fs)
      (c.modifyStore (·.settleLayout l size)) := by
  refine .step rfl fun s hat => ⟨rfl, ?_⟩
  rw [stepFrame, stepLayout, stepSettle, hat.off.store]
  refine At.push (hat.off.modifyStore (·.settleLayout l size)) [_] fun _ hg => ?_
  rw [List.mem_singleton.1 hg]
  exact ((hat.anchored _ List.mem_cons_self).stage _).congr rfl

theorem At.heard (hat : At b i fs c s) (hb : b.Calm) (listener : MeasureListener) (size : Size) :
    At b i fs (c.heard listener size) (s.heard listener size) := by
  unfold Session.heard
  dsimp only
  split
  · next handle _ =>
      rw [hat.resolve? hb]
      split
      · exact (hat.modifyStore _).report _
      · exact hat.report _
  · exact hat.report _

theorem writes_heard (c : Session) (listener : MeasureListener) (size : Size) :
    Writes c (c.heard listener size) := by
  unfold heard
  dsimp only
  split
  · next handle _ =>
      split
      · refine ⟨?_, rfl, fun _ h => h⟩
        show Store.blurred (if _ then _ else _) = _
        split
        · exact c.store.blurred_writeHeight handle size.height
        · rfl
      · exact c.writes_report _
  · exact c.writes_report _

theorem stepNotifyMeasured_eq (s : Session) (i : Nat) (l : Layout) (sequel : Sequel) (size : Size)
    (ready : Option ReadyListener) :
    s.stepNotifyMeasured i l sequel size ready =
      match (s.store.tree? l.tree).bind fun t => t.config.listener with
      | none => s.push i [.layout l sequel (.notifyReady size ready)]
      | some listener =>
        ((s.push i [.layout l sequel (.notifyReady size ready)]).heard listener size).fire i
          listener.factory.listenerScript := by
  rw [stepNotifyMeasured, store_push]
  cases (s.store.tree? l.tree).bind fun t => t.config.listener with
  | none => rfl
  | some listener =>
      obtain ⟨f, handle?⟩ := listener
      cases handle? with
      | none => rfl
      | some handle =>
          dsimp only [heard]
          cases f.writesHeight with
          | false => rfl
          | true =>
              generalize (resolve? _ handle).isSome = written
              cases written <;> rfl

theorem leads_notifyMeasured (hb : b.Calm) {size : Size} {ready : Option ReadyListener}
    (hwrites : ∀ listener, (c.store.tree? l.tree).bind (fun t => t.config.listener) =
      some listener → c.OnlyWrites listener.factory.listenerScript) :
    Leads b i (.layout l sequel (.notifyMeasured size ready) :: fs) c
      (.layout l sequel (.notifyReady size ready) :: fs) (c.toldMeasured l size) := by
  have hstep (s : Session)
      (hat : At b i (.layout l sequel (.notifyMeasured size ready) :: fs) c s) :=
    hat.off.store ▸ stepNotifyMeasured_eq (s.off i) i l sequel size ready
  unfold toldMeasured
  generalize ((c.store.tree? l.tree).bind fun t => t.config.listener) = listener?
    at hwrites hstep
  cases listener? with
  | none =>
      refine .step rfl fun s hat => ⟨rfl, ?_⟩
      rw [stepFrame, stepLayout, hstep s hat]
      exact hat.pushStage _
  | some listener =>
      refine .fire hb rfl ((writes_heard c listener size).scripts _ (hwrites listener rfl))
        fun s hat => ⟨rfl, _, (hat.pushStage (.notifyReady size ready)).heard hb listener size, ?_⟩
      rw [stepFrame, stepLayout, hstep s hat]

theorem leads_notifyReady (hb : b.Calm) {size : Size} {ready : Option ReadyListener}
    (hc : ∀ listener, ready = some listener → c.OnlyWrites listener.script) :
    Leads b i (.layout l sequel (.notifyReady size ready) :: fs) c
      (.layout l sequel (.deliver (.ok size)) :: fs) (c.toldReady l ready) := by
  cases ready with
  | none =>
      refine .step rfl fun s hat => ⟨rfl, ?_⟩
      rw [stepFrame, stepLayout, stepNotifyReady]
      exact hat.pushStage _
  | some listener =>
      refine .fire hb rfl (hc listener rfl) fun s hat => ⟨rfl, _, (hat.pushStage _).report _, ?_⟩
      rw [stepFrame, stepLayout, stepNotifyReady, store_push, hat.off.store]

theorem writes_measured (c : Session) (l : Layout) : Writes c (c.measured l) := by
  unfold measured
  split
  · split
    · exact (c.writes_report _).trans (writes_called _ _)
    · exact .refl c
  · exact .refl c

theorem writes_toldMeasured (c : Session) (l : Layout) (size : Size) :
    Writes c (c.toldMeasured l size) := by
  unfold toldMeasured
  split
  · exact .refl c
  · next listener _ => exact (c.writes_heard listener size).trans (writes_called _ _)

theorem writes_toldReady (c : Session) (l : Layout) (ready : Option ReadyListener) :
    Writes c (c.toldReady l ready) := by
  unfold toldReady
  split
  · exact .refl c
  · exact (c.writes_report _).trans (writes_called _ _)

/-- A layout with nothing in its way comes to an outcome, the size of its root. -/
theorem leads_layout (hb : b.Calm) (hc : c.Clear l.tree e x) :
    Leads b i (.layout l sequel .enter :: fs) c
      (.layout l sequel (.deliver (.ok (c.store.measure l))) :: fs) (c.laidOut l) := by
  have hmeasured := c.writes_measured l
  have htree : (c.measured l).store.tree? l.tree = some x :=
    (Store.tree?_congr (Store.engines_of_blurred hmeasured.heights) _).trans hc.tree
  have hsettled := (c.measured l).store.tree?_settleLayout l (c.store.measure l) l.tree
  rw [htree, Option.map_some, if_pos rfl] at hsettled
  refine (leads_enter hc).trans ((leads_measure hb hc).trans ((leads_settle _).trans ?_))
  refine (leads_notifyMeasured hb fun listener hlistener => ?_).trans
    (leads_notifyReady hb fun listener hlistener => ?_)
  · refine hmeasured.scripts _ (hc.listener listener ?_)
    rwa [modifyStore, hsettled] at hlistener
  · refine (writes_toldMeasured _ l _).scripts _ (hmeasured.scripts _ (hc.ready listener ?_))
    rwa [htree] at hlistener

/-- What comes after the size was committed to the tree. -/
theorem writes_laidOut (c : Session) (l : Layout) :
    Writes ((c.measured l).modifyStore (·.settleLayout l (c.store.measure l))) (c.laidOut l) :=
  (writes_toldMeasured _ l _).trans (writes_toldReady _ l _)

/-- Of what holders have a layout changes nothing but heights. -/
theorem exists_laidOut {h : Nat} {y : Holder} (l : Layout)
    (hy : c.store.holders[h]? = some y) : ∃ height,
      (c.laidOut l).store.holders[h]? = some { y with state := { y.state with height } } := by
  obtain ⟨n, hn⟩ := Store.exists_of_blurred (c.writes_measured l).heights hy
  have hsettled : ((c.measured l).modifyStore
      (·.settleLayout l (c.store.measure l))).store.holders[h]? = _ := hn
  obtain ⟨m, hm⟩ := Store.exists_of_blurred (c.writes_laidOut l).heights hsettled
  exact ⟨m, hm⟩

theorem queues_laidOut (c : Session) (l : Layout) :
    (c.laidOut l).store.queues = c.store.queues := by
  have hmeasured := Store.queues_of_blurred (c.writes_measured l).heights
  exact (Store.queues_of_blurred (c.writes_laidOut l).heights).trans hmeasured

/-! ## What a layout does not depend on -/

/-- A change that makes no difference to layouts, and to which layouts make none. -/
structure Transparent (T : Session → Session) : Prop where
  registers : ∀ s, (T s).registers = s.registers
  scripts : ∀ s, (T s).scripts = s.scripts
  engines : ∀ s, (T s).store.engines = s.store.engines
  resolve? : ∀ s w, (T s).resolve? w = s.resolve? w
  report : ∀ s e, (T s).report e = T (s.report e)
  leave : ∀ s n lists, (T s).leave n lists = T (s.leave n lists)
  writeHeight : ∀ s w height,
    (T s).modifyStore (·.writeHeight w height) = T (s.modifyStore (·.writeHeight w height))
  settleLayout : ∀ s l size,
    (T s).modifyStore (·.settleLayout l size) = T (s.modifyStore (·.settleLayout l size))

namespace Transparent

variable {T : Session → Session}

theorem tree? (hT : Transparent T) (s : Session) (t : TreeRef) :
    (T s).store.tree? t = s.store.tree? t := Store.tree?_congr (hT.engines s) t

/-- A height that is written, or is not. -/
theorem writeHeight_if (hT : Transparent T) (s : Session) (w : WeakHandle) (height : Int32)
    (written : Bool) : (T s).modifyStore (fun σ => if written then σ.writeHeight w height else σ) =
      T (s.modifyStore fun σ => if written then σ.writeHeight w height else σ) := by
  cases written with
  | true => exact hT.writeHeight s w height
  | false => rfl

theorem wrote (hT : Transparent T) (s : Session) (name : Option String) (weak : String)
    (height : Int32) : (T s).wrote name weak height = T (s.wrote name weak height) := by
  rw [Session.wrote, Session.wrote, weakHandle, weakHandle, hT.registers]
  cases need "weak" (s.registers.weaks.get? weak) with
  | error trouble => exact hT.report s _
  | ok w =>
      dsimp only
      rw [hT.resolve?, hT.writeHeight_if, hT.report]

theorem ran (hT : Transparent T) (s : Session) (steps : List Step) :
    (T s).ran steps = T (s.ran steps) := by
  induction steps generalizing s with
  | nil => rfl
  | cons step steps ih =>
      obtain ⟨name, handle, shows, command⟩ := step
      cases command with
      | writeHeight weak height => rw [Session.ran, hT.wrote, ih, Session.ran]
      | _ => exact ih s

theorem called (hT : Transparent T) (s : Session) (script : Option Nat) :
    (T s).called script = T (s.called script) := by
  cases script with
  | none => rfl
  | some n =>
      rw [Session.called, Session.called, hT.scripts]
      split
      · rw [hT.leave, hT.ran]
      · rfl

theorem measured (hT : Transparent T) (s : Session) (l : Layout) :
    (T s).measured l = T (s.measured l) := by
  rw [Session.measured, Session.measured, hT.engines]
  split
  · split
    · rw [hT.report, hT.called]
    · rfl
  · rfl

theorem heard (hT : Transparent T) (s : Session) (listener : MeasureListener) (size : Size) :
    (T s).heard listener size = T (s.heard listener size) := by
  unfold Session.heard
  dsimp only
  split
  · split
    · rw [hT.resolve?, hT.writeHeight_if, hT.report]
    · exact hT.report s _
  · exact hT.report s _

theorem toldMeasured (hT : Transparent T) (s : Session) (l : Layout) (size : Size) :
    (T s).toldMeasured l size = T (s.toldMeasured l size) := by
  rw [Session.toldMeasured, Session.toldMeasured, hT.tree?]
  split
  · rfl
  · rw [hT.heard, hT.called]

theorem toldReady (hT : Transparent T) (s : Session) (l : Layout) (ready : Option ReadyListener) :
    (T s).toldReady l ready = T (s.toldReady l ready) := by
  cases ready with
  | none => rfl
  | some listener =>
      rw [Session.toldReady, Session.toldReady, hT.tree?, hT.report, hT.called]

theorem measure (hT : Transparent T) (s : Session) (l : Layout) :
    (T s).store.measure l = s.store.measure l := by
  rw [Store.measure, Store.measure, hT.engines]

theorem laidOut (hT : Transparent T) (s : Session) (l : Layout) :
    (T s).laidOut l = T (s.laidOut l) := by
  rw [Session.laidOut, Session.laidOut, hT.measure, hT.measured, hT.tree?, hT.settleLayout,
    hT.toldMeasured, hT.toldReady]

end Transparent
end Recycler.Session

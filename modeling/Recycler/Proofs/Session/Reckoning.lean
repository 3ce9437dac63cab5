import Recycler.Proofs.Session.Course
import Recycler.Proofs.Session.Latest
import Recycler.Proofs.Store.Armed

/-!
# What engines keep account of

In every run (`reckoned_of_run`) an engine counts the layouts that were committed to its trees, and
the reason it is armed with strikes the next layout that begins on a tree that was not released, and
no other. A layout that is struck or finds its tree released did nothing (`TurnedAway`), and one
that ends with a size stored what it was asked for, and told the measure listener before the
listener for new layouts (`CarriedOut`).
-/

namespace Recycler

/-- Every tree and the number of layouts on every engine are as before. -/
structure Store.Keeps (s s' : Store) : Prop where
  tree : ∀ t, s'.tree? t = s.tree? t
  layouts : ∀ e : Nat, (s'.engines[e]?).map Engine.layouts = (s.engines[e]?).map Engine.layouts

namespace Session

open Store (Act Armed)

/-- What the listeners of trees are told in some steps of a thread. -/
def notices (i : Nat) (steps : List (Session × Stage)) : List Event :=
  steps.flatMap fun step => (step.1.reported (.carry i)).filter Event.isNotice

/-- The steps of a layout that came to nothing. -/
structure TurnedAway (i : Nat) (l : Layout) (steps : List (Session × Stage)) (failure : Failure) :
    Prop where
  order : ∃ v w, steps = [(v, .enter), (w, .deliver (.error failure))] ∧
    (v.store.enterLayout l.tree).2 = .failed failure
  keeps : ∀ v stage w, (v, stage) ∈ steps → v.next? (.carry i) = some w → v.store.Keeps w.store
  silent : notices i steps = []

/-- The steps of a layout that came to a size. It is measured in the session `v`, committed in `w`,
and the listeners are told in `x` and `y`. -/
structure CarriedOut (i : Nat) (l : Layout) (steps : List (Session × Stage)) (size : Size)
    (v w x y : Session) (ready : Option ReadyListener) : Prop where
  order : ∃ before z, Path l before .measure ∧ steps = before ++ [(v, .measure), (w, .settle size),
    (x, .notifyMeasured size ready), (y, .notifyReady size ready), (z, .deliver (.ok size))]
  measured : size = v.store.measure l
  listener : ready = (w.store.tree? l.tree).bind (·.readyListener)
  /-- The tree is committed to what the layout was asked for. -/
  committed : ∀ w', w.next? (.carry i) = some w' → ∃ tree, w.store.tree? l.tree = some tree ∧
    w'.store.tree? l.tree = some
      { tree with root := l.root, props := l.props, committed := some ⟨l.bounds, size⟩ } ∧
    ∀ t, t ≠ l.tree → w'.store.tree? t = w.store.tree? t
  /-- The layout is counted once. -/
  counted : ∀ w', w.next? (.carry i) = some w' → ∀ e : Nat,
    (w'.store.engines[e]?).map Engine.layouts =
      (w.store.engines[e]?).map fun engine => engine.layouts + if l.tree.engine = e then 1 else 0
  /-- The other steps change no tree and count nothing. -/
  keeps : ∀ u stage u', (u, stage) ∈ steps → stage ≠ .settle size → u.next? (.carry i) = some u' →
    u.store.Keeps u'.store
  /-- The measure listener of the tree is told the size, and then the listener for new layouts that
  the tree had when the layout was committed. -/
  told : notices i steps =
    (((x.store.tree? l.tree).bind (·.config.listener)).map fun listener =>
      .measured listener.factory.name size (if listener.factory.writesHeight then
        listener.handle.map (x.resolve? · |>.isSome) else none)).toList ++
    (ready.map fun listener =>
      .ready listener.name ((y.store.tree? l.tree).any (·.mounted))).toList

/-- How a layout begins after a run. -/
structure Begun (o : Session) (ms : List Moment) (s : Session) (i : Nat) (l : Layout)
    (sequel : Sequel) (tree : Tree) : Prop where
  built : s.store.tree? l.tree = some tree
  /-- On a released tree the layout touches nothing, neither an armed engine nor a gate. -/
  released : tree.released = true → s.store.enterLayout l.tree = (s.store, .failed .released)
  struck : ∀ reason, (s.store.enterLayout l.tree).2 = .failed (.measure reason) ↔
    tree.released = false ∧ Armed l.tree.engine o.store (o.runActs ms) reason
  /-- The layout delivers the failure in its next step. -/
  fails : ∀ failure s', (s.store.enterLayout l.tree).2 = .failed failure →
    s.next? (.carry i) = some s' →
      s'.work i = .layout l sequel (.deliver (.error failure)) :: (s.off i).work i
  /-- A layout that begins on a tree that was not released leaves the engine unarmed. -/
  spent : ∀ s' ns t engine reason, tree.released = false → s.next? (.carry i) = some s' →
    s'.follow? ns = some t → t.store.engines[l.tree.engine]? = some engine →
      (engine.armed = some reason ↔ Armed l.tree.engine s'.store (s'.runActs ns) reason)

/-- What engines keep account of in the session that a run leads to. -/
structure Reckoned (o : Session) (ms : List Moment) (s : Session) : Prop where
  counted : ∀ (e : Nat) engine, s.store.engines[e]? = some engine →
    engine.layouts = (o.runActs ms).countP (Act.settlesOn e)
  /-- Each of the layouts counted was committed in a step of its own. -/
  settled : ∀ as l size bs, o.runActs ms = as ++ .settleLayout l size :: bs →
    ∃ ks i ns u sequel, ms = ks ++ .carry i :: ns ∧ o.follow? ks = some u ∧ as = o.runActs ks ∧
      u.top? i = some (.layout l sequel (.settle size)) ∧ (u.store.tree? l.tree).isSome
  armed : ∀ (e : Nat) engine reason, s.store.engines[e]? = some engine →
    (engine.armed = some reason ↔ Armed e o.store (o.runActs ms) reason)
  begins : ∀ i l sequel, s.top? i = some (.layout l sequel .enter) →
    ∃ tree, Begun o ms s i l sequel tree
  /-- A layout that delivers its outcome made its steps in the run. -/
  delivers : ∀ i l sequel outcome, s.top? i = some (.layout l sequel (.deliver outcome)) →
    ∃ ks ns u, ms = ks ++ ns ∧ o.follow? ks = some u ∧
      Course u i l sequel ((s.off i).work i) ns s (.deliver outcome) ∧
      match outcome with
      | .error failure => TurnedAway i l
        (u.layoutSteps i ((s.off i).work i).length ns ++ [(s, .deliver outcome)]) failure
      | .ok size => ∃ v w x y ready, CarriedOut i l
        (u.layoutSteps i ((s.off i).work i).length ns ++ [(s, .deliver outcome)]) size v w x y ready

variable {p : Program} {o s s' t u v w x y : Session} {i n : Nat} {l : Layout} {sequel : Sequel}
  {stage stage' : Stage} {ms ns : List Moment} {below : List Frame} {failure : Failure}
  {steps : List (Session × Stage)} {size : Size} {ready : Option ReadyListener}

/-! ## What a step of a layout does to the trees -/

theorem layouts_settleLayout (σ : Store) (l : Layout) (size : Size) (e : Nat) :
    ((σ.settleLayout l size).engines[e]?).map Engine.layouts =
      (σ.engines[e]?).map fun engine => engine.layouts + if l.tree.engine = e then 1 else 0 := by
  rw [Store.settleLayout, Store.modifyTree, Store.modifyEngine, Store.modifyEngine,
    List.getElem?_modify, List.getElem?_modify]
  by_cases he : l.tree.engine = e <;>
    simp [he, Function.comp_def, Engine.modifyTree]

theorem store_layout (hf : s.top? i = some (.layout l sequel stage))
    (hn : s.next? (.carry i) = some s') :
    s'.store = s.store.acts ((s.off i).frameActs i (.layout l sequel stage)) := by
  rw [store_next? hn, momentActs_carry hf]

theorem keeps_of_engines {σ σ' : Store} (h : σ'.engines = σ.engines) : σ.Keeps σ' where
  tree t := Store.tree?_congr h t
  layouts e := by rw [h]

theorem map_account? (σ : Store) (e : Nat) :
    (σ.account? e).map Prod.snd = (σ.engines[e]?).map Engine.layouts := by
  rw [Store.account?, Option.map_map]
  rfl

theorem keeps_enterLayout (σ : Store) (t : TreeRef) : σ.Keeps (σ.enterLayout t).1 where
  tree u := σ.tree?_enterLayout t u
  layouts e := by
    rw [← map_account?, ← map_account?, σ.account?_enterLayout, Option.map_map]
    rfl

/-- Only the step that commits a layout changes a tree or the number of layouts. -/
theorem keeps_of_layout (hf : s.top? i = some (.layout l sequel stage))
    (hn : s.next? (.carry i) = some s') (hstage : ∀ size, stage ≠ .settle size) :
    s.store.Keeps s'.store := by
  rw [store_layout hf hn]
  cases stage with
  | enter => exact keeps_enterLayout s.store l.tree
  | settle size => exact absurd rfl (hstage size)
  | notifyMeasured size ready =>
      refine keeps_of_engines ?_
      show (s.store.acts (((s.off i).push i
        [.layout l sequel (.notifyReady size ready)]).listenerActs l size)).engines = _
      unfold listenerActs
      split
      · split
        · exact Store.engines_writeHeight ..
        · rfl
      · rfl
  | deliver outcome =>
      refine keeps_of_engines ?_
      cases outcome with
      | error failure => cases sequel <;> rfl
      | ok size =>
          cases sequel with
          | commit r => exact Store.engines_commitLayout ..
          | _ => rfl
  | _ => exact keeps_of_engines rfl

/-! ## The path of a layout that delivers its outcome -/

/-- What brought a layout to a stage at which it was not from the beginning. -/
theorem Path.exists_of_ne (hp : Path l steps stage) (hne : stage ≠ .enter) :
    ∃ s before stage', steps = before ++ [(s, stage')] ∧ Path l before stage' ∧
      stage'.after? s.store l = some stage := by
  cases hp with
  | nil => exact absurd rfl hne
  | step h hn => exact ⟨_, _, _, rfl, h, hn⟩

/-- From what stage a layout comes to another one by a step on a store. -/
def ComesFrom (σ : Store) (l : Layout) (stage : Stage) : Stage → Prop
  | .enter => False
  | .gate g => stage = .enter ∧ (σ.enterLayout l.tree).2 = .free (some g)
  | .measure =>
    stage = .enter ∧ (σ.enterLayout l.tree).2 = .free none ∨ ∃ g, stage = .gate g
  | .settle size => stage = .measure ∧ size = σ.measure l
  | .notifyMeasured size ready =>
    stage = .settle size ∧ ready = (σ.tree? l.tree).bind (·.readyListener)
  | .notifyReady size ready => stage = .notifyMeasured size ready
  | .deliver (.ok size) => ∃ ready, stage = .notifyReady size ready
  | .deliver (.error failure) => stage = .enter ∧ (σ.enterLayout l.tree).2 = .failed failure

theorem comesFrom_of_after? {σ : Store} (h : stage.after? σ l = some stage') :
    ComesFrom σ l stage stage' := by
  cases stage with
  | enter =>
      obtain rfl := Option.some.inj h
      clear h
      split
      · next failure he => exact ⟨rfl, he⟩
      · next g he => exact ⟨rfl, he⟩
      · next he => exact .inl ⟨rfl, he⟩
  | gate g =>
      obtain rfl := Option.some.inj h
      exact .inr ⟨g, rfl⟩
  | measure =>
      obtain rfl := Option.some.inj h
      exact ⟨rfl, rfl⟩
  | settle size =>
      obtain rfl := Option.some.inj h
      exact ⟨rfl, rfl⟩
  | notifyMeasured size ready =>
      obtain rfl := Option.some.inj h
      rfl
  | notifyReady size ready =>
      obtain rfl := Option.some.inj h
      exact ⟨ready, rfl⟩
  | deliver outcome => cases h

theorem Path.eq_nil (hp : Path l steps .enter) : steps = [] := by
  cases hp with
  | nil => rfl
  | step h hn => exact (comesFrom_of_after? hn).elim

theorem Path.failed (hp : Path l steps (.deliver (.error failure))) :
    ∃ v, steps = [(v, .enter)] ∧ (v.store.enterLayout l.tree).2 = .failed failure := by
  obtain ⟨v, before, stage, rfl, hbefore, hn⟩ := hp.exists_of_ne (by simp)
  obtain ⟨rfl, he⟩ := comesFrom_of_after? hn
  exact ⟨v, by rw [hbefore.eq_nil, List.nil_append], he⟩

/-- Before a layout is measured it begins, and may come to a gate. -/
theorem Path.measured (hp : Path l steps .measure) :
    ∃ v gate, (v.store.enterLayout l.tree).2 = .free gate ∧
      (steps = [(v, .enter)] ∨ ∃ w g, steps = [(v, .enter), (w, .gate g)]) := by
  obtain ⟨v, before, stage, rfl, hbefore, hn⟩ := hp.exists_of_ne (by simp)
  obtain ⟨rfl, he⟩ | ⟨g, rfl⟩ := comesFrom_of_after? hn
  · exact ⟨v, none, he, .inl (by rw [hbefore.eq_nil, List.nil_append])⟩
  · obtain ⟨u, before, stage, rfl, hbefore, hn⟩ := hbefore.exists_of_ne (by simp)
    obtain ⟨rfl, he⟩ := comesFrom_of_after? hn
    exact ⟨u, some g, he, .inr ⟨v, g, by rw [hbefore.eq_nil]; rfl⟩⟩

theorem Path.committed (hp : Path l steps (.notifyMeasured size ready)) :
    ∃ before v w, Path l before .measure ∧ steps = before ++ [(v, .measure), (w, .settle size)] ∧
      size = v.store.measure l ∧ ready = (w.store.tree? l.tree).bind (·.readyListener) := by
  obtain ⟨w, _, stage, rfl, hw, hn⟩ := hp.exists_of_ne (by simp)
  obtain ⟨rfl, hready⟩ := comesFrom_of_after? hn
  obtain ⟨v, before, stage, rfl, hv, hn⟩ := hw.exists_of_ne (by simp)
  obtain ⟨rfl, hsize⟩ := comesFrom_of_after? hn
  exact ⟨before, v, w, hv, by simp, hsize, hready⟩

theorem Path.notified (hp : Path l steps (.notifyReady size ready)) :
    ∃ before x, Path l before (.notifyMeasured size ready) ∧
      steps = before ++ [(x, .notifyMeasured size ready)] := by
  obtain ⟨x, before, stage, rfl, hx, hn⟩ := hp.exists_of_ne (by simp)
  obtain rfl := comesFrom_of_after? hn
  exact ⟨before, x, hx, rfl⟩

theorem Path.done (hp : Path l steps (.deliver (.ok size))) :
    ∃ before v w x y ready, Path l before .measure ∧
      steps = before ++ [(v, .measure), (w, .settle size), (x, .notifyMeasured size ready),
        (y, .notifyReady size ready)] ∧
      size = v.store.measure l ∧ ready = (w.store.tree? l.tree).bind (·.readyListener) := by
  obtain ⟨y, _, stage, rfl, hy, hn⟩ := hp.exists_of_ne (by simp)
  obtain ⟨ready, rfl⟩ := comesFrom_of_after? hn
  obtain ⟨_, x, hx, rfl⟩ := hy.notified
  obtain ⟨before, v, w, hbefore, rfl, hsize, hready⟩ := hx.committed
  exact ⟨before, v, w, x, y, ready, hbefore, by simp, hsize, hready⟩

/-! ## What a layout did that delivers its outcome -/

section Delivered

variable {outcome : Except Failure Size}

/-- In each of the steps the layout is on top of its thread. -/
theorem Course.top?_of_mem (hc : Course u i l sequel below ms s (.deliver outcome))
    (hf : s.top? i = some (.layout l sequel (.deliver outcome)))
    (ht : (t, stage) ∈ u.layoutSteps i below.length ms ++ [(s, .deliver outcome)]) :
    t.top? i = some (.layout l sequel stage) := by
  rcases List.mem_append.1 ht with ht | ht
  · obtain ⟨ks, ns, -, -, htop, -⟩ := hc.exists_of_mem ht
    exact htop
  · obtain ⟨rfl, rfl⟩ := Prod.mk.inj (List.mem_singleton.1 ht)
    exact hf

/-- Each of the steps but the last was made. -/
theorem Course.next?_of_mem (hc : Course u i l sequel below ms s stage)
    (ht : (t, stage') ∈ u.layoutSteps i below.length ms) : ∃ t', t.next? (.carry i) = some t' := by
  obtain ⟨ks, ns, rfl, hks, -⟩ := hc.exists_of_mem ht
  have hrun := hc.run
  rw [follow?_append, hks, Option.bind_some] at hrun
  obtain ⟨t', ht', -⟩ := follow?_cons_eq_some.1 hrun
  exact ⟨t', ht'⟩

/-- A layout tells the listeners nothing but in the two steps for this. -/
theorem reported_of_layout (hf : s.top? i = some (.layout l sequel stage))
    (hmeasured : ∀ size ready, stage ≠ .notifyMeasured size ready)
    (hready : ∀ size ready, stage ≠ .notifyReady size ready) :
    (s.reported (.carry i)).filter Event.isNotice = [] := by
  cases hn : s.next? (.carry i) with
  | none =>
      rw [reported, hn]
      rfl
  | some s' =>
      rw [(events_of_layout hf hn).2]
      cases stage with
      | notifyMeasured size ready => exact absurd rfl (hmeasured size ready)
      | notifyReady size ready => exact absurd rfl (hready size ready)
      | _ => rfl

theorem notices_append (i : Nat) (steps steps' : List (Session × Stage)) :
    notices i (steps ++ steps') = notices i steps ++ notices i steps' := List.flatMap_append

theorem notices_cons (i : Nat) (step : Session × Stage) (steps : List (Session × Stage)) :
    notices i (step :: steps) =
      (step.1.reported (.carry i)).filter Event.isNotice ++ notices i steps := List.flatMap_cons

theorem turnedAway_of_course (hc : Course u i l sequel below ms s (.deliver (.error failure)))
    (hf : s.top? i = some (.layout l sequel (.deliver (.error failure)))) :
    TurnedAway i l (u.layoutSteps i below.length ms ++ [(s, .deliver (.error failure))])
      failure := by
  obtain ⟨v, horder, he⟩ := hc.path.failed
  have hstage {t : Session} {stage : Stage}
      (ht : (t, stage) ∈ u.layoutSteps i below.length ms ++ [(s, .deliver (.error failure))]) :
      stage = .enter ∨ stage = .deliver (.error failure) := by
    rw [horder] at ht
    simp only [List.cons_append, List.nil_append, List.mem_cons, Prod.mk.injEq,
      List.not_mem_nil, or_false] at ht
    exact ht.imp And.right And.right
  refine ⟨⟨v, s, by rw [horder]; rfl, he⟩, fun t stage t' ht hn => ?_, ?_⟩
  · refine keeps_of_layout (hc.top?_of_mem hf ht) hn ?_
    rintro size rfl
    simpa using hstage ht
  · refine List.flatMap_eq_nil_iff.2 fun ⟨t, stage⟩ ht => ?_
    rcases hstage ht with rfl | rfl <;>
      exact reported_of_layout (hc.top?_of_mem hf ht) (by simp) (by simp)

theorem carriedOut_of_course (hu : u.Reachable)
    (hc : Course u i l sequel below ms s (.deliver (.ok size)))
    (hf : s.top? i = some (.layout l sequel (.deliver (.ok size)))) :
    ∃ v w x y ready, CarriedOut i l
      (u.layoutSteps i below.length ms ++ [(s, .deliver (.ok size))]) size v w x y ready := by
  obtain ⟨before, v, w, x, y, ready, hbefore, horder, hsize, hready⟩ := hc.path.done
  have hmem {t : Session} {stage : Stage}
      (ht : (t, stage) ∈ u.layoutSteps i below.length ms) :
      t.top? i = some (.layout l sequel stage) := hc.top?_of_mem hf (List.mem_append_left _ ht)
  have hsettle : (w, .settle size) ∈ u.layoutSteps i below.length ms := by simp [horder]
  have hstore {w' : Session} (hn : w.next? (.carry i) = some w') :
      w'.store = w.store.settleLayout l size := store_layout (hmem hsettle) hn
  have hearly {t : Session} {stage : Stage} (ht : (t, stage) ∈ before) :
      stage = .enter ∨ ∃ g, stage = .gate g := by
    obtain ⟨u, gate, -, rfl | ⟨w, g, rfl⟩⟩ := hbefore.measured
    · exact .inl (Prod.mk.inj (List.mem_singleton.1 ht)).2
    · simp only [List.mem_cons, Prod.mk.injEq, List.not_mem_nil, or_false] at ht
      exact ht.imp And.right fun h => ⟨g, h.2⟩
  refine ⟨v, w, x, y, ready, ⟨before, s, hbefore, by simp [horder]⟩, hsize, hready, fun w' hn => ?_,
    fun w' hn e => ?_, fun t stage t' ht hstage hn => ?_, ?_⟩
  · obtain ⟨ks, ns, -, hks, htop, -⟩ := hc.exists_of_mem hsettle
    obtain ⟨tree, htree⟩ := Option.isSome_iff_exists.1 (built_of_layout (hu.follow? hks).sound htop)
    refine ⟨tree, htree, ?_, fun t ht => ?_⟩
    · rw [hstore hn, w.store.tree?_settleLayout, htree, Option.map_some, if_pos rfl, Tree.commit]
    · rw [hstore hn, w.store.tree?_settleLayout]
      simp [ht.symm]
  · rw [hstore hn]
    exact layouts_settleLayout w.store l size e
  · refine keeps_of_layout (hc.top?_of_mem hf ht) hn ?_
    rintro size' rfl
    rw [horder] at ht
    have hbefore' : (t, .settle size') ∉ before := fun ht => by simpa using hearly ht
    simp [hbefore'] at ht
    exact hstage (by rw [ht.2])
  · have hsilent : notices i before = [] := by
      refine List.flatMap_eq_nil_iff.2 fun e ht => ?_
      obtain ⟨t, stage⟩ := e
      have htop := hmem (horder ▸ List.mem_append_left _ ht)
      obtain rfl | ⟨g, rfl⟩ := hearly ht <;>
        exact reported_of_layout htop (by simp) (by simp)
    have hx : (x, .notifyMeasured size ready) ∈ u.layoutSteps i below.length ms := by
      simp [horder]
    have hy : (y, .notifyReady size ready) ∈ u.layoutSteps i below.length ms := by simp [horder]
    obtain ⟨x', hx'⟩ := hc.next?_of_mem hx
    obtain ⟨y', hy'⟩ := hc.next?_of_mem hy
    have hv : (v, .measure) ∈ u.layoutSteps i below.length ms := by simp [horder]
    rw [horder, List.append_assoc, notices_append, hsilent, List.nil_append, List.cons_append,
      List.cons_append, List.cons_append, List.cons_append, List.nil_append, notices_cons,
      notices_cons, notices_cons, notices_cons, notices_cons,
      reported_of_layout (hmem hv) (by simp) (by simp),
      reported_of_layout (hmem hsettle) (by simp) (by simp),
      reported_of_layout hf (by simp) (by simp), (events_of_layout (hmem hx) hx').2,
      (events_of_layout (hmem hy) hy').2]
    simp [notices]

end Delivered

/-! ## Runs -/

/-- A layout that is turned away delivers the failure in its next step. -/
theorem work_of_failed (hf : s.top? i = some (.layout l sequel .enter))
    (he : (s.store.enterLayout l.tree).2 = .failed failure)
    (hn : s.next? (.carry i) = some s') :
    s'.work i = .layout l sequel (.deliver (.error failure)) :: (s.off i).work i := by
  obtain rfl := eq_of_next?_carry hf hn
  have hi := lt_off_of_top? hf
  have hentry : (s.off i).store.enterLayout l.tree =
      ((s.store.enterLayout l.tree).1, .failed failure) := Prod.ext rfl he
  rw [(like_dismissSince _ _).work]
  show ((s.off i).stepEnter i l sequel).work i = _
  unfold stepEnter
  rw [hentry]
  exact (work_push _ i _ i).trans (if_pos ⟨rfl, hi⟩)

theorem begun_of_run (hrun : (ofProgram p).follow? ms = some s)
    (hf : s.top? i = some (.layout l sequel .enter)) :
    ∃ tree, Begun (ofProgram p) ms s i l sequel tree := by
  obtain ⟨tree, htree⟩ :=
    Option.isSome_iff_exists.1 (built_of_layout (Reachable.sound ⟨p, ms, hrun⟩) hf)
  refine ⟨tree, htree, Store.enterLayout_of_released htree, fun reason => ?_,
    fun failure s' he hn => work_of_failed hf he hn,
    fun s' ns t engine reason hreleased hn ht hx => ?_⟩
  · rw [Store.enterLayout_eq_measure_iff htree]
    obtain ⟨engine, hx⟩ := Store.exists_engine_of_tree? htree
    rw [hx, Option.bind_some]
    rw [store_of_run hrun] at hx
    rw [Store.armed_iff rfl hx]
    rfl
  · rw [store_follow? ht] at hx
    refine Store.armed_iff ?_ hx
    rw [store_layout hf hn]
    exact Store.armed_enterLayout htree hreleased

/-- In every run an engine counts the layouts committed to its trees, the reason it is armed with
strikes the next layout to begin on a tree that was not released and no other, a layout that
delivers a failure did nothing, and one that delivers a size was committed and told each listener
once. -/
theorem reckoned_of_run (hrun : (ofProgram p).follow? ms = some s) :
    Reckoned (ofProgram p) ms s := by
  have hsettled (as : List Act) (l : Layout) (size : Size) (bs : List Act)
      (heq : (ofProgram p).runActs ms = as ++ .settleLayout l size :: bs) :
      ∃ ks i ns u sequel, ms = ks ++ .carry i :: ns ∧ (ofProgram p).follow? ks = some u ∧
        as = (ofProgram p).runActs ks ∧ u.top? i = some (.layout l sequel (.settle size)) ∧
        (u.store.tree? l.tree).isSome := by
    obtain ⟨ks, i, ns, u, sequel, hms, hks, has, hf⟩ := exists_of_settleLayout hrun heq
    have hsound := Reachable.sound ⟨p, ks, hks⟩
    exact ⟨ks, i, ns, u, sequel, hms, hks, has, hf, built_of_layout hsound hf⟩
  refine ⟨fun e engine hx => ?_, hsettled, fun e engine reason hx => ?_,
    fun i l sequel hf => begun_of_run hrun hf, fun i l sequel outcome hf => ?_⟩
  · rw [store_of_run hrun] at hx
    refine Store.layouts_eq rfl hx fun as l size bs heq => ?_
    obtain ⟨ks, i, ns, u, sequel, -, hks, rfl, -, hbuilt⟩ := hsettled as l size bs heq
    rwa [store_of_run hks] at hbuilt
  · rw [store_of_run hrun] at hx
    exact Store.armed_iff rfl hx
  · obtain ⟨ks, ns, u, hms, hks, hc⟩ := exists_course_of_run hrun (work_of_top? hf rfl)
    refine ⟨ks, ns, u, hms, hks, hc, ?_⟩
    cases outcome with
    | error failure => exact turnedAway_of_course hc hf
    | ok size => exact carriedOut_of_course ⟨p, ks, hks⟩ hc hf

/-- The failure that the engine was armed with struck one layout, and only the other was counted. -/
theorem SecondFails.counted_one :
    (start.runActs upToEnd).countP (Act.settlesOn 0) = 1 ∧
      ∀ reason, ¬ Armed 0 {} (start.runActs upToEnd) reason := by
  have hreckoned := reckoned_of_run run_atEnd
  have hx : atEnd.store.engines[0]? = some ((atEnd.store.engines[0]?).get (by decide)) :=
    (Option.some_get _).symm
  refine ⟨(hreckoned.counted 0 _ hx).symm.trans (by decide), fun reason harmed => ?_⟩
  have hidle : ((atEnd.store.engines[0]?).get (by decide)).armed = none := by decide
  rw [(hreckoned.armed 0 _ reason hx).2 harmed] at hidle
  cases hidle

end Session

end Recycler

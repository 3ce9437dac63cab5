import Recycler.Proofs.Session.Reckoning
import Recycler.Proofs.Store.Notice

/-!
# When the listener for new layouts is called

A layout takes the listener for new layouts from its tree in the step that commits it, and calls it
after the measure listener. A release takes the listener from the tree, so a layout that is
committed afterwards finds none. But a release in between, be it by the measure listener or on
another thread, comes too late, and the listener is called with a released tree (`notified_of_run`,
`Evicted.told_of_released`).
-/

namespace Recycler.Session

open Store (Act freedBy)

/-- How it came that a listener for new layouts is called in the session `s`, for a layout that was
committed in the session `w` to which the run `ks` leads, the run `ns` leading on from there. -/
structure Notified (o : Session) (ks ns : List Moment) (s : Session) (i : Nat) (l : Layout)
    (sequel : Sequel) (size : Size) (listener : ReadyListener) (w : Session) (tree : Tree) :
    Prop where
  run : o.follow? ks = some w
  commits : w.top? i = some (.layout l sequel (.settle size))
  /-- The layout began on a tree that was not released. -/
  begins : ∃ js ks' u, ks = js ++ .carry i :: ks' ∧ o.follow? js = some u ∧
    u.top? i = some (.layout l sequel .enter) ∧ (u.store.tree? l.tree).any (!·.released)
  built : w.store.tree? l.tree = some tree
  ready : tree.readyListener = some listener
  /-- The tree is a released one by now if it was when the layout was committed, or if its holder or
  somebody else released it since. -/
  released_iff : (s.store.tree? l.tree).any (·.released) ↔ tree.released ∨
    (∃ h, l.tree ∈ freedBy h w.store (w.runActs ns)) ∨
      Act.changeTree l.tree .release ∈ w.runActs ns
  /-- A tree that was released when the layout was committed was given the listener afterwards. -/
  late : tree.released → ∃ as a bs y, o.runActs ks = as ++ a :: bs ∧
    a.tells? (o.store.acts as) l.tree = some (some listener) ∧
    (o.store.acts as).tree? l.tree = some y ∧ y.released
  /-- The listener is called in the next step, once. -/
  called : ∀ s', s.next? (.carry i) = some s' → (s.reported (.carry i)).filter Event.isNotice =
    [.ready listener.name ((s.store.tree? l.tree).any (·.mounted))]

variable {p : Program} {s w : Session} {i : Nat} {l : Layout} {sequel : Sequel}
  {ms ks : List Moment} {size : Size} {listener : ReadyListener} {ready : Option ReadyListener}

/-- A layout that is committed began on a tree that was not released. -/
theorem began_of_run (hrun : (ofProgram p).follow? ks = some w)
    (hf : w.top? i = some (.layout l sequel (.settle size))) :
    ∃ js ks' u, ks = js ++ .carry i :: ks' ∧ (ofProgram p).follow? js = some u ∧
      u.top? i = some (.layout l sequel .enter) ∧ (u.store.tree? l.tree).any (!·.released) := by
  obtain ⟨js, ns, t, rfl, hjs, hc⟩ := exists_course_of_run hrun (work_of_top? hf rfl)
  obtain ⟨v, before, stage, hsteps, hp, hn⟩ := hc.path.exists_of_ne (by simp)
  obtain ⟨rfl, -⟩ := comesFrom_of_after? hn
  obtain ⟨u, gate, he, hbefore⟩ := hp.measured
  have hmem : (u, .enter) ∈ t.layoutSteps i ((w.off i).work i).length ns := by
    rw [hsteps]
    rcases hbefore with rfl | ⟨w, g, rfl⟩ <;> simp
  obtain ⟨ks, ks', rfl, hks, htop, -⟩ := hc.exists_of_mem hmem
  have hu : (ofProgram p).follow? (js ++ ks) = some u := follow?_trans hjs hks
  obtain ⟨tree, htree⟩ :=
    Option.isSome_iff_exists.1 (built_of_layout (Reachable.sound ⟨p, _, hu⟩) htop)
  refine ⟨js ++ ks, ks', u, (List.append_assoc ..).symm, hu, htop, ?_⟩
  cases hr : tree.released with
  | false => simp [htree, hr]
  | true =>
      rw [Store.enterLayout_of_released htree hr] at he
      cases he

/-- In every run a listener for new layouts that is called is the one that the tree had when the
layout was committed. The layout began before the tree was released. So the tree is a released one
only if it was released since the layout was committed, or if the listener was set on a tree that
was released already. -/
theorem notified_of_run (hrun : (ofProgram p).follow? ms = some s)
    (hf : s.top? i = some (.layout l sequel (.notifyReady size (some listener)))) :
    ∃ ks ns w tree, ms = ks ++ ns ∧
      Notified (ofProgram p) ks ns s i l sequel size listener w tree := by
  obtain ⟨js, ns, u, rfl, hjs, hc⟩ := exists_course_of_run hrun (work_of_top? hf rfl)
  obtain ⟨_, x, hp, hsteps⟩ := hc.path.notified
  obtain ⟨before, v, w, -, rfl, -, hready⟩ := hp.committed
  have hmem : (w, .settle size) ∈ u.layoutSteps i ((s.off i).work i).length ns := by
    rw [hsteps]
    simp
  obtain ⟨ks, ns, rfl, hks, htop, -⟩ := hc.exists_of_mem hmem
  have hw : (ofProgram p).follow? (js ++ ks) = some w := follow?_trans hjs hks
  obtain ⟨tree, htree⟩ :=
    Option.isSome_iff_exists.1 (built_of_layout (Reachable.sound ⟨p, _, hw⟩) htop)
  have hlistener : tree.readyListener = some listener := by rw [hready, htree, Option.bind_some]
  have hlater : w.follow? (.carry i :: ns) = some s := by
    rwa [← List.append_assoc, follow?_append, hw, Option.bind_some] at hrun
  refine ⟨js ++ ks, .carry i :: ns, w, tree, (List.append_assoc ..).symm, hw, htop,
    began_of_run hw htop, htree, hlistener, ?_, fun hr => ?_, fun s' hn => ?_⟩
  · obtain ⟨y, hy, hreleased⟩ := Store.released_acts htree (w.runActs (.carry i :: ns))
    rw [store_follow? hlater, hy]
    exact hreleased
  · rw [store_of_run hw] at htree
    obtain ⟨as, a, bs, y, has, htells, hy, hreleased⟩ :=
      Store.exists_tells?_of_released rfl htree hr hlistener
    exact ⟨as, a, bs, y, has, htells, hy, hreleased⟩
  · rw [(events_of_layout hf hn).2]
    rfl

/-! ### A measure listener that evicts the holder

Its eviction releases the tree between the commit of the layout and the call of the listener for new
layouts.
-/

namespace Evicted

def start : Session := ofProgram {
  steps := []
  scripts := [[[{ name := none, command := .onHolder "h" .evict }]]] }

def telling : ReadyListener := ⟨some "ready", none⟩

def upToCommit : List Moment :=
  told (.component "c" "c" .byName) ++ told (.item "d" (.component "c") []) ++
    told (.engine "e" .standard {}) ++
    told (.acquire "d" [] (some ⟨none, false, none, some 0⟩) "shared" (some "h")) ++
    told (.onHolder "h" (.setReadyListener (some telling))) ++
    [.give mainThread (.layout ⟨.exactly 100, .exactly 200⟩ "e" "" "h" false)] ++
    List.replicate 6 (.carry mainThread)

/-- The commit, the call of the measure listener, and its script. -/
def upToNotice : List Moment := List.replicate 6 (.carry mainThread)

def atCommit : Session := (start.follow? upToCommit).get (by decide)

def atNotice : Session := (atCommit.follow? upToNotice).get (by decide)

theorem run_atNotice : start.follow? (upToCommit ++ upToNotice) = some atNotice :=
  follow?_trans (Option.some_get _).symm (Option.some_get _).symm

def asked : Request :=
  ⟨⟨0, 0, "", ⟨.exactly 100, .exactly 200⟩, false⟩,
    ⟨0, { content := .component ⟨0, .byName, "c"⟩ }⟩, ⟨0, .byName, "c"⟩, ⟨0, 0⟩⟩

theorem top_atNotice : atNotice.top? mainThread =
    some (.layout asked.layout (.commit asked) (.notifyReady ⟨100, 200⟩ (some telling))) := rfl

/-- The listener for new layouts is called with a tree that was released. -/
theorem told_of_released :
    start.follow? (upToCommit ++ upToNotice) = some atNotice ∧
      atNotice.top? mainThread =
        some (.layout asked.layout (.commit asked) (.notifyReady ⟨100, 200⟩ (some telling))) ∧
      (atNotice.store.tree? asked.tree).map (·.released) = some true ∧
      atNotice.reported (.carry mainThread) = [.ready (some "ready") false] :=
  ⟨run_atNotice, rfl, by decide, by decide⟩

theorem released_since_commit : ∃ ks ns w tree, upToCommit ++ upToNotice = ks ++ ns ∧
    start.follow? ks = some w ∧ w.store.tree? asked.tree = some tree ∧
    tree.readyListener = some telling ∧
    (tree.released ∨ (∃ h, asked.tree ∈ freedBy h w.store (w.runActs ns)) ∨
      Act.changeTree asked.tree .release ∈ w.runActs ns) := by
  obtain ⟨ks, ns, w, tree, hms, hnotified⟩ := notified_of_run run_atNotice top_atNotice
  exact ⟨ks, ns, w, tree, hms, hnotified.run, hnotified.built, hnotified.ready,
    hnotified.released_iff.1 (by decide)⟩

end Evicted

end Recycler.Session

import Recycler.Proofs.Churn.Steps

/-!
# What a churn comes to

A churn is orderly after any schedule, and every worker had the turns that the schedule gives it, up
to the end of its items (`Orderly.runs`). When all workers are at their end, every kind of turn was
taken once for each item (`churn_of_schedule`).
-/

namespace Recycler.Churn

variable {c : Churn} {setup : Setup} {measure : Measure} {hs : List Holder} {e : Engine}
  {pool : Pool} {i : Nat} {w : Worker}

/-! ## Runs -/

theorem leads_step (ho : Orderly c measure hs e pool) (hw : c.workers[i]? = some w)
    (hlt : w.finished < c.setup.items) : Leads c measure i w (c.step i) := by
  simp only [step, hw, if_pos hlt]
  exact ho.stepStage hw hlt

/-- A worker that has finished its items, and a number beyond those of the workers, does nothing. -/
theorem step_of_idle (hidle : ∀ w, c.workers[i]? = some w → ¬ w.finished < c.setup.items) :
    c.step i = c := by
  cases hw : c.workers[i]? with
  | none => simp only [step, hw]
  | some w => simp only [step, hw, if_neg (hidle w hw)]

/-- What a schedule comes to: the churn is orderly, and every worker had its turns, up to the end of
its items. -/
structure Runs (measure : Measure) (c : Churn) (schedule : List Nat) (c' : Churn) : Prop where
  setup : c'.setup = c.setup
  length : c'.workers.length = c.workers.length
  orderly : ∃ hs e pool, Orderly c' measure hs e pool
  progress : ∀ (i : Nat) (w : Worker), c.workers[i]? = some w → ∃ v, c'.workers[i]? = some v ∧
    v.progress = min (c.setup.items * turnsPerItem) (w.progress + schedule.count i)

theorem Worker.Fits.progress_le (hf : w.Fits setup measure hs i) :
    w.progress ≤ setup.items * turnsPerItem := by
  have hrank := w.stage.rank_le
  have hle := hf.finished
  rw [Worker.progress, turnsPerItem]
  rcases Nat.lt_or_eq_of_le hle with hlt | heq
  · omega
  · rw [hf.atEnd heq]
    omega

theorem Worker.Fits.progress_eq_iff (hf : w.Fits setup measure hs i) :
    w.progress = setup.items * turnsPerItem ↔ w.finished = setup.items := by
  have hrank := w.stage.rank_le
  have hle := hf.finished
  rw [Worker.progress, turnsPerItem]
  constructor
  · omega
  · intro heq
    rw [hf.atEnd heq]
    omega

theorem Orderly.runs (ho : Orderly c measure hs e pool) (schedule : List Nat) :
    Runs measure c schedule (c.run schedule) := by
  induction schedule generalizing c hs e pool with
  | nil =>
      refine ⟨rfl, rfl, ⟨hs, e, pool, ho⟩, fun i w hw => ⟨w, hw, ?_⟩⟩
      have hle := (ho.workers i w hw).progress_le
      rw [List.count_nil]
      omega
  | cons j schedule ih =>
      by_cases hturn : ∃ w, c.workers[j]? = some w ∧ w.finished < c.setup.items
      · obtain ⟨w, hw, hlt⟩ := hturn
        have hleads := leads_step ho hw hlt
        obtain ⟨hs', e', pool', ho'⟩ := hleads.orderly
        have hruns := ih ho'
        refine ⟨hruns.setup.trans hleads.setup, hruns.length.trans hleads.length, hruns.orderly,
          fun i v hv => ?_⟩
        by_cases hi : i = j
        · subst hi
          obtain rfl := Option.some.inj (hw.symm.trans hv)
          obtain ⟨v, hv, hprogress⟩ := hleads.own
          obtain ⟨u, hu, huprogress⟩ := hruns.progress i v hv
          refine ⟨u, hu, ?_⟩
          rw [huprogress, hprogress, hleads.setup, List.count_cons_self]
          omega
        · obtain ⟨u, hu, huprogress⟩ := hruns.progress i v ((hleads.others i hi).trans hv)
          refine ⟨u, hu, ?_⟩
          rw [huprogress, hleads.setup, List.count_cons_of_ne (Ne.symm hi)]
      · have hidle : c.step j = c := step_of_idle fun w hw hlt => hturn ⟨w, hw, hlt⟩
        have hruns := ih ho
        have hrun : c.run (j :: schedule) = c.run schedule := by
          rw [run, List.foldl_cons, hidle]
          rfl
        rw [hrun]
        refine ⟨hruns.setup, hruns.length, hruns.orderly, fun i v hv => ?_⟩
        obtain ⟨u, hu, huprogress⟩ := hruns.progress i v hv
        refine ⟨u, hu, ?_⟩
        rw [huprogress]
        by_cases hi : i = j
        · subst hi
          have hfits := ho.workers i v hv
          have hend : v.finished = c.setup.items :=
            Nat.le_antisymm hfits.finished (Nat.not_lt.1 fun hlt => hturn ⟨v, hv, hlt⟩)
          rw [hfits.progress_eq_iff.2 hend]
          omega
        · rw [List.count_cons_of_ne (Ne.symm hi)]

theorem getElem?_startOn (hw : (startOn setup measure).workers[i]? = some w) : w = {} :=
  List.eq_of_mem_replicate (List.mem_of_getElem? hw)

/-- A churn starts orderly. -/
theorem orderly_startOn {capacity : UInt64} (hpool : Pool.new? capacity = some setup.pool)
    (measure : Measure) :
    Orderly (startOn setup measure) measure [] { name := "", measure } setup.pool := by
  have hpool := Pool.eq_of_new? hpool
  have hpassed (n : Nat) : (startOn setup measure).passed n = 0 := by
    refine (sum_eq_of_forall fun w hw => ?_).trans (Nat.mul_zero _)
    rw [List.eq_of_mem_replicate hw]
    rfl
  constructor
  · rfl
  · exact ⟨rfl, rfl, rfl, rfl⟩
  · intro x hx
    cases hx
  · intro i w hw
    obtain rfl := getElem?_startOn hw
    exact ⟨Nat.zero_le _, fun _ => rfl, trivial⟩
  · intro i j v w h hv hw hvh hwh
    obtain rfl := getElem?_startOn hv
    cases hvh
  · intro h state hstate
    cases hstate
  · rw [hpool]
    exact ⟨by rw [startOn, hpool], Nat.zero_le _, List.nodup_nil, fun h hh => (by cases hh),
      fun h hh => (by cases hh)⟩
  · exact ⟨fun h t ht => (by cases ht), fun h k t ht => (by cases ht),
      fun n tree hn => (by cases hn)⟩
  · rw [hpool]
    exact ⟨(hpassed 0).symm, rfl, (hpassed 2).symm, (hpassed 4).symm, (hpassed 6).symm,
      (hpassed 10).symm, rfl⟩

/-! ## The end -/

theorem Orderly.pool_eq (ho : Orderly c measure hs e pool) : c.pool = pool := by
  rw [Churn.pool, ho.store]
  rfl

theorem Orderly.trees_eq (ho : Orderly c measure hs e pool) : c.trees = e.trees := by
  rw [trees, ho.store]
  rfl

theorem Orderly.layouts_eq (ho : Orderly c measure hs e pool) : c.layouts = e.layouts := by
  rw [layouts, ho.store]
  rfl

theorem Orderly.holders_eq (ho : Orderly c measure hs e pool) : c.store.holders = hs := by
  rw [ho.store]
  rfl

theorem Orderly.rank_of_finished (ho : Orderly c measure hs e pool)
    (hend : ∀ w ∈ c.workers, w.finished = c.setup.items) (hw : w ∈ c.workers) :
    w.stage.rank = 0 := by
  obtain ⟨i, hi⟩ := List.getElem?_of_mem hw
  exact (ho.workers i w hi).atEnd (hend w hw)

/-- When all workers are at their end, every kind of turn was taken once for each item. -/
theorem Orderly.passed_of_finished (ho : Orderly c measure hs e pool)
    (hend : ∀ w ∈ c.workers, w.finished = c.setup.items) (n : Nat) :
    c.passed n = c.workers.length * c.setup.items := by
  refine sum_eq_of_forall fun w hw => ?_
  rw [Worker.passed, ho.rank_of_finished hend hw, hend w hw]
  rfl

theorem Orderly.released_of_finished (ho : Orderly c measure hs e pool)
    (hend : ∀ w ∈ c.workers, w.finished = c.setup.items) {tree : Tree} (ht : tree ∈ e.trees) :
    tree.released := by
  obtain ⟨n, hn⟩ := List.getElem?_of_mem ht
  by_cases hr : tree.released
  · exact hr
  · -- the tree would be in use by a holder, and the holder by a worker
    obtain ⟨h, hlive⟩ := ho.held.released n tree hn (Bool.eq_false_iff.2 hr)
    obtain ⟨state, hstate, hslot⟩ := Option.bind_eq_some_iff.1 hlive
    rcases ho.clean h state hstate with rfl | ⟨i, w, hw, hh⟩
    · cases hslot
    · have hrank := ho.rank_of_finished hend (List.mem_of_getElem? hw)
      have hpos := w.stage.holder?_isSome.1 (by rw [hh]; rfl)
      omega

/-- The workers come to their end by the schedules that have turns enough for each of them. -/
theorem finished_iff_of_runs {schedule : List Nat}
    (hruns : Runs measure (startOn setup measure) schedule c) :
    (∀ w ∈ c.workers, w.finished = setup.items) ↔
      ∀ i, i < setup.workers → setup.items * turnsPerItem ≤ schedule.count i := by
  have hsetup : c.setup = setup := hruns.setup
  have hlength : c.workers.length = setup.workers := hruns.length.trans (List.length_replicate ..)
  obtain ⟨hs, e, pool, ho⟩ := hruns.orderly
  have hprogress (i : Nat) (hi : i < setup.workers) : ∃ w, c.workers[i]? = some w ∧
      w.progress = min (setup.items * turnsPerItem) (schedule.count i) := by
    obtain ⟨w, hw, hprogress⟩ := hruns.progress i {} (List.getElem?_replicate_of_lt hi)
    have hzero : ({} : Worker).progress = 0 := rfl
    rw [hzero, Nat.zero_add] at hprogress
    exact ⟨w, hw, hprogress⟩
  have hfinished {i : Nat} {w : Worker} (hw : c.workers[i]? = some w) :
      w.progress = setup.items * turnsPerItem ↔ w.finished = setup.items := by
    rw [← hsetup]
    exact (ho.workers i w hw).progress_eq_iff
  constructor
  · intro hend i hi
    obtain ⟨w, hw, hmin⟩ := hprogress i hi
    rw [(hfinished hw).2 (hend w (List.mem_of_getElem? hw))] at hmin
    exact hmin ▸ Nat.min_le_right _ _
  · intro hcount w hw
    obtain ⟨i, hi⟩ := List.getElem?_of_mem hw
    have hlt : i < setup.workers := hlength ▸ (List.getElem?_eq_some_iff.1 hi).1
    obtain ⟨v, hv, hmin⟩ := hprogress i hlt
    obtain rfl := Option.some.inj (hi.symm.trans hv)
    rw [Nat.min_eq_left (hcount i hlt)] at hmin
    exact (hfinished hi).1 hmin

/-- What the workers come to when all are at their end: every item was taken, laid out and given
back once, and every tree is released. -/
structure Ended (setup : Setup) (c : Churn) : Prop where
  acquired : c.pool.stats.hits + c.pool.stats.misses = setup.workers * setup.items
  released : c.pool.stats.recycled + c.pool.stats.dropped = setup.workers * setup.items
  fresh : c.fresh = setup.workers * setup.items
  built : c.trees.length = setup.workers * setup.items
  layouts : c.layouts = setup.workers * setup.items
  discarded : ∀ tree ∈ c.trees, tree.released

/-- What holds of a churn after a schedule of turns of its workers. -/
structure Churned (setup : Setup) (measure : Measure) (capacity : UInt64) (schedule : List Nat)
    (c : Churn) : Prop where
  /-- A holder has no height and no valid layout when an item gets it. -/
  acquired : ∀ (i : Nat) (w : Worker) (h : Nat), c.workers[i]? = some w → w.stage = .inspect h →
    ∃ x, c.store.holders[h]? = some x ∧ x.state.height = none ∧ x.state.valid = false
  /-- A layout comes to the size that is measured, and is one of the holder still when it is
  committed. -/
  current : ∀ (i : Nat) (w : Worker) (r : Request) (size : Size), c.workers[i]? = some w →
    w.stage = .commit r size →
      (item setup i w.finished).value.component? = some r.component ∧
        size = measure.size r.component setup.bounds ∧ c.store.isCurrent r
  /-- The holder has the height of the layout afterwards. -/
  committed : ∀ (i : Nat) (w : Worker) (h : Nat) (outcome : Except Failure (Option Size)),
    c.workers[i]? = some w → w.stage = .judge h outcome →
      ∃ component x, (item setup i w.finished).value.component? = some component ∧
        outcome = .ok (some (measure.size component setup.bounds)) ∧
        c.store.holders[h]? = some x ∧ x.state.valid ∧
        x.state.height = some (measure.size component setup.bounds).height
  /-- No holder is with two workers, or with a worker and idle. -/
  apart : ∀ (i j : Nat) (v w : Worker) (h : Nat), c.workers[i]? = some v → c.workers[j]? = some w →
    v.stage.holder? = some h → w.stage.holder? = some h → i = j ∧ h ∉ c.pool.idle
  bounded : c.pool.idle.length ≤ capacity.toNat
  allocated : c.pool.stats.misses = c.store.holders.length
  /-- The holders that were allocated are in use, idle or dropped. -/
  accounted : c.pool.stats.misses = c.inUse + c.pool.idle.length + c.pool.stats.dropped
  /-- The workers come to their end by exactly the schedules that have turns enough for each. -/
  ends_iff : (∀ w ∈ c.workers, w.finished = setup.items) ↔
    ∀ i, i < setup.workers → setup.items * turnsPerItem ≤ schedule.count i
  ended : (∀ w ∈ c.workers, w.finished = setup.items) → Ended setup c

/-- The invariants of any number of workers on one pool and one engine, after any schedule of their
turns. -/
theorem churn_of_schedule {capacity : UInt64} (hpool : Pool.new? capacity = some setup.pool)
    (measure : Measure) (schedule : List Nat) (hrun : (startOn setup measure).run schedule = c) :
    Churned setup measure capacity schedule c := by
  have hruns := (orderly_startOn hpool measure).runs schedule
  rw [hrun] at hruns
  have hsetup : c.setup = setup := hruns.setup
  have hlength : c.workers.length = setup.workers := hruns.length.trans (List.length_replicate ..)
  obtain ⟨hs, e, pool, ho⟩ := hruns.orderly
  have hcapacity : pool.capacity = capacity := by
    rw [ho.kept.capacity, hsetup, Pool.eq_of_new? hpool]
  have hcounted := ho.counted
  obtain rfl : c.pool = pool := ho.pool_eq
  obtain rfl : c.store.holders = hs := ho.holders_eq
  refine ⟨fun i w h hw hstage => ?_, fun i w r size hw hstage => ?_,
    fun i w h outcome hw hstage => ?_, fun i j v w h hv hw hvh hwh =>
      ⟨ho.apart i j v w h hv hw hvh hwh, fun hmem => ho.kept.free h hmem i v hv hvh⟩,
    hcapacity ▸ ho.kept.room, hcounted.allocated, ?_, finished_iff_of_runs hruns, fun hend => ?_⟩
  · have hfits := (ho.workers i w hw).stage
    rw [hstage] at hfits
    obtain ⟨x, hx, hstate⟩ := Option.map_eq_some_iff.1 hfits
    exact ⟨x, hx, by rw [hstate]; rfl, by rw [hstate]; rfl⟩
  · have hfits := (ho.workers i w hw).stage
    rw [hstage, hsetup] at hfits
    obtain ⟨hfor, hstate, hsize⟩ := hfits
    obtain ⟨x, hx, hstate⟩ := Option.map_eq_some_iff.1 hstate
    refine ⟨hfor.component, hsize, ?_⟩
    rw [Store.isCurrent_eq _ hx, hstate]
    exact isCurrent_adopted hfor
  · have hfits := (ho.workers i w hw).stage
    rw [hstage, hsetup] at hfits
    obtain ⟨component, t, hcomponent, houtcome, hstate⟩ := hfits
    obtain ⟨x, hx, hstate⟩ := Option.map_eq_some_iff.1 hstate
    exact ⟨component, x, hcomponent, houtcome, hx, by rw [hstate]; rfl, by rw [hstate]; rfl⟩
  · have hzero := c.passed_zero
    have htaken := hcounted.taken
    have hback := hcounted.back
    have hkept := hcounted.kept
    omega
  · rw [← hsetup] at hend
    have hpassed (n : Nat) : c.passed n = setup.workers * setup.items := by
      rw [ho.passed_of_finished hend, hlength, hsetup]
    exact ⟨hcounted.taken.trans (hpassed 0), hcounted.back.trans (hpassed 10),
      hcounted.fresh.trans (hpassed 2), ho.trees_eq ▸ hcounted.built.trans (hpassed 4),
      ho.layouts_eq.trans (hcounted.settled.trans (hpassed 6)), fun tree ht =>
        ho.released_of_finished hend (ho.trees_eq ▸ ht)⟩

/-- Two workers with two items each, on a pool that keeps one holder. -/
def pair : Setup := { workers := 2, items := 2, pool := { capacity := 1 }, bounds := default }

theorem pair_by_turns : Pool.new? 1 = some pair.pool ∧
    ((startOn pair .standard).run (roundRobin pair)).trees.length = 4 ∧
    ∀ tree ∈ ((startOn pair .standard).run (roundRobin pair)).trees, tree.released := by
  have hpool : Pool.new? 1 = some pair.pool := by decide
  have hchurned := churn_of_schedule hpool .standard (roundRobin pair) rfl
  have hend := hchurned.ended (hchurned.ends_iff.2 (by decide))
  exact ⟨hpool, hend.built, hend.discarded⟩

end Recycler.Churn

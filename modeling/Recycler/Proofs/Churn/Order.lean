import Recycler.Proofs.Churn.Turn
import Recycler.Proofs.Sum

/-!
# Churns in any order

What holds of a churn after any schedule (`Orderly`): every worker has a holder of its own that is
as its stage wants it, the pool keeps other holders that have no item, each tree that is not
released is in use by one holder, and every counter shows how many turns of its kind there were.
-/

namespace Recycler.Churn

variable {c c' : Churn} {setup : Setup} {measure : Measure} {hs hs' : List Holder} {e e' : Engine}
  {pool pool' : Pool} {h k i n : Nat} {x : Holder} {t : TreeRef} {stage : Stage} {w v : Worker}

/-! ## Counting turns -/

/-- How many turns a worker had that end the stage with a rank. -/
def Worker.passed (w : Worker) (n : Nat) : Nat := w.finished + if n < w.stage.rank then 1 else 0

/-- How many turns there were that end a stage with a rank. -/
def passed (c : Churn) (n : Nat) : Nat := c.workers.foldr (fun w k => w.passed n + k) 0

/-- The number of holders that workers have. -/
def inUse (c : Churn) : Nat := c.workers.countP fun w => w.stage.holder?.isSome

theorem Stage.rank_le (stage : Stage) : stage.rank ≤ 10 := by
  cases stage <;> simp [Stage.rank]

theorem Stage.holder?_isSome (stage : Stage) : stage.holder?.isSome ↔ 0 < stage.rank := by
  cases stage <;> simp [Stage.holder?, Stage.rank]

theorem passed_goOn (hw : c.workers[i]? = some w) (hr : stage.rank = w.stage.rank + 1) (n : Nat) :
    (c.goOn i stage).passed n = c.passed n + if n = w.stage.rank then 1 else 0 := by
  refine sum_modify (c := 0) hw ?_
  simp only [Worker.passed, hr]
  split <;> split <;> split <;> omega

theorem passed_finish (hw : c.workers[i]? = some w) (hr : w.stage.rank = 10) (hn : n ≤ 10) :
    (c.finish i).passed n = c.passed n + if n = 10 then 1 else 0 := by
  refine sum_modify (c := 0) hw ?_
  have hnext : Stage.take.rank = 0 := rfl
  simp only [Worker.passed, hr, hnext, Nat.not_lt_zero, if_false]
  split <;> split <;> omega

/-- The workers that have a holder are those that took one and did not give it back. -/
theorem passed_zero (c : Churn) : c.passed 0 = c.passed 10 + c.inUse := by
  rw [passed, passed, inUse]
  induction c.workers with
  | nil => rfl
  | cons w ws ih =>
      rw [List.foldr_cons, List.foldr_cons, List.countP_cons, ih]
      have hle := w.stage.rank_le
      simp only [Worker.passed, Stage.holder?_isSome]
      split <;> split <;> omega

/-- Every counter shows how many turns of its kind there were. -/
structure Counted (c : Churn) (hs : List Holder) (e : Engine) (pool : Pool) : Prop where
  taken : pool.stats.hits + pool.stats.misses = c.passed 0
  allocated : pool.stats.misses = hs.length
  fresh : c.fresh = c.passed 2
  built : e.trees.length = c.passed 4
  settled : e.layouts = c.passed 6
  back : pool.stats.recycled + pool.stats.dropped = c.passed 10
  kept : pool.stats.hits + pool.idle.length = pool.stats.recycled

/-! ## Trees -/

/-- The trees that are not released are in use, each by a holder of its own. -/
structure Held (hs : List Holder) (trees : List Tree) : Prop where
  built : ∀ h t, liveAt hs h = some t →
    t.engine = engine ∧ ∃ tree, trees[t.index]? = some tree ∧ tree.released = false
  unique : ∀ h k t, liveAt hs h = some t → liveAt hs k = some t → h = k
  released : ∀ n tree, trees[n]? = some tree → tree.released = false →
    ∃ h, liveAt hs h = some ⟨engine, n⟩

theorem Held.congr {trees : List Tree} (hheld : Held hs trees)
    (hlive : ∀ h, liveAt hs' h = liveAt hs h) : Held hs' trees where
  built h t ht := hheld.built h t (hlive h ▸ ht)
  unique h k t hh hk := hheld.unique h k t (hlive h ▸ hh) (hlive k ▸ hk)
  released n tree hn hr := (hheld.released n tree hn hr).imp fun h hh => (hlive h).trans hh

/-- A holder without a tree is given a new one. -/
theorem Held.append {trees : List Tree} {tree : Tree} (hheld : Held hs trees)
    (hr : tree.released = false) (hnone : liveAt hs h = none)
    (hnew : liveAt hs' h = some ⟨engine, trees.length⟩)
    (hlive : ∀ k, k ≠ h → liveAt hs' k = liveAt hs k) : Held hs' (trees ++ [tree]) := by
  have hlt {k : Nat} {t : TreeRef} (ht : liveAt hs k = some t) : t.index < trees.length := by
    obtain ⟨-, u, hu, -⟩ := hheld.built k t ht
    exact (List.getElem?_eq_some_iff.1 hu).1
  constructor
  · intro k t ht
    by_cases hk : k = h
    · subst hk
      obtain rfl := Option.some.inj (hnew.symm.trans ht)
      exact ⟨rfl, tree, List.getElem?_concat_length, hr⟩
    · rw [hlive k hk] at ht
      obtain ⟨hengine, u, hu, hreleased⟩ := hheld.built k t ht
      exact ⟨hengine, u, (List.getElem?_append_left (hlt ht)).trans hu, hreleased⟩
  · intro k l t hk hl
    by_cases hkh : k = h <;> by_cases hlh : l = h
    · rw [hkh, hlh]
    · rw [hkh, hnew] at hk
      rw [hlive l hlh] at hl
      obtain rfl := Option.some.inj hk
      exact absurd (hlt hl) (Nat.lt_irrefl _)
    · rw [hlh, hnew] at hl
      rw [hlive k hkh] at hk
      obtain rfl := Option.some.inj hl
      exact absurd (hlt hk) (Nat.lt_irrefl _)
    · exact hheld.unique k l t (hlive k hkh ▸ hk) (hlive l hlh ▸ hl)
  · intro n u hn hreleased
    rcases Nat.lt_or_ge n trees.length with hlt | hge
    · rw [List.getElem?_append_left hlt] at hn
      obtain ⟨k, hk⟩ := hheld.released n u hn hreleased
      have hkh : k ≠ h := by
        rintro rfl
        rw [hnone] at hk
        cases hk
      exact ⟨k, (hlive k hkh).trans hk⟩
    · have hlen : n < (trees ++ [tree]).length := (List.getElem?_eq_some_iff.1 hn).1
      rw [List.length_append, List.length_singleton] at hlen
      obtain rfl : n = trees.length := by omega
      exact ⟨h, hnew⟩

/-- A change that releases no tree, or one that a holder gives up at the same time. -/
theorem Held.modify {trees : List Tree} {f : Tree → Tree} (hheld : Held hs trees)
    (hkeeps : ∀ tree, (f tree).released = tree.released) : Held hs (trees.modify n f) := by
  constructor
  · intro h t ht
    obtain ⟨hengine, tree, htree, hr⟩ := hheld.built h t ht
    refine ⟨hengine, if n = t.index then f tree else tree, ?_, ?_⟩
    · rw [List.getElem?_modify, htree]
      split <;> rfl
    · split
      · rw [hkeeps, hr]
      · exact hr
  · exact hheld.unique
  · intro m u hu hr
    rw [List.getElem?_modify] at hu
    obtain ⟨tree, htree, rfl⟩ := Option.map_eq_some_iff.1 hu
    refine hheld.released m tree htree ?_
    split at hr
    · rw [← hkeeps, hr]
    · exact hr

theorem Held.release {trees : List Tree} (hheld : Held hs trees) (hlive : liveAt hs h = some t)
    (hnone : liveAt hs' h = none) (hsame : ∀ k, k ≠ h → liveAt hs' k = liveAt hs k) :
    Held hs' (trees.modify t.index Tree.release) := by
  have hother {k : Nat} {u : TreeRef} (hk : liveAt hs' k = some u) :
      k ≠ h ∧ liveAt hs k = some u := by
    have hkh : k ≠ h := by
      rintro rfl
      rw [hnone] at hk
      cases hk
    exact ⟨hkh, hsame k hkh ▸ hk⟩
  have hengine := (hheld.built h t hlive).1
  constructor
  · intro k u hk
    obtain ⟨hkh, hk⟩ := hother hk
    obtain ⟨hu, tree, htree, hr⟩ := hheld.built k u hk
    have hne : t.index ≠ u.index := by
      intro hi
      have htu : t = u := by
        cases t
        cases u
        simp_all
      exact hkh (hheld.unique k h u hk (htu ▸ hlive))
    exact ⟨hu, tree, (List.getElem?_modify_ne _ _ hne).trans htree, hr⟩
  · intro k l u hk hl
    exact hheld.unique k l u (hother hk).2 (hother hl).2
  · intro m u hu hr
    rw [List.getElem?_modify] at hu
    obtain ⟨tree, htree, rfl⟩ := Option.map_eq_some_iff.1 hu
    split at hr
    · cases hr
    · next hne =>
        obtain ⟨k, hk⟩ := hheld.released m tree htree hr
        have hkh : k ≠ h := by
          rintro rfl
          rw [hlive] at hk
          obtain rfl := Option.some.inj hk
          exact hne rfl
        exact ⟨k, (hsame k hkh).trans hk⟩

/-! ## The invariant -/

/-- A worker has its items still to finish, or it is at its end. -/
structure Worker.Fits (setup : Setup) (measure : Measure) (hs : List Holder) (i : Nat)
    (w : Worker) : Prop where
  finished : w.finished ≤ setup.items
  atEnd : w.finished = setup.items → w.stage.rank = 0
  stage : w.stage.Fits setup measure hs (item setup i w.finished)

/-- What the pool keeps are holders that are there and that no worker has, as many as fit. -/
structure Kept (c : Churn) (hs : List Holder) (pool : Pool) : Prop where
  capacity : pool.capacity = c.setup.pool.capacity
  room : pool.idle.length ≤ pool.capacity.toNat
  nodup : pool.idle.Nodup
  lt : ∀ h ∈ pool.idle, h < hs.length
  free : ∀ h ∈ pool.idle, ∀ (i : Nat) (w : Worker), c.workers[i]? = some w →
    w.stage.holder? ≠ some h

structure Orderly (c : Churn) (measure : Measure) (hs : List Holder) (e : Engine) (pool : Pool) :
    Prop where
  store : c.store = storeOf hs e pool
  engine : Willing e measure
  home : ∀ x ∈ hs, x.home = Store.sharedPool
  workers : ∀ (i : Nat) (w : Worker), c.workers[i]? = some w → w.Fits c.setup measure hs i
  apart : ∀ (i j : Nat) (v w : Worker) (h : Nat), c.workers[i]? = some v →
    c.workers[j]? = some w → v.stage.holder? = some h → w.stage.holder? = some h → i = j
  clean : ∀ h state, stateAt hs h = some state →
    state = {} ∨ ∃ (i : Nat) (w : Worker), c.workers[i]? = some w ∧ w.stage.holder? = some h
  kept : Kept c hs pool
  held : Held hs e.trees
  counted : Counted c hs e pool

/-- How many turns a worker had. -/
def Worker.progress (w : Worker) : Nat := w.finished * turnsPerItem + w.stage.rank

/-- A turn brings a worker one step further, leaves the other workers where they are, and keeps the
churn orderly. -/
structure Leads (c : Churn) (measure : Measure) (i : Nat) (w : Worker) (c' : Churn) : Prop where
  setup : c'.setup = c.setup
  length : c'.workers.length = c.workers.length
  own : ∃ v, c'.workers[i]? = some v ∧ v.progress = w.progress + 1
  others : ∀ j, j ≠ i → c'.workers[j]? = c.workers[j]?
  orderly : ∃ hs e pool, Orderly c' measure hs e pool

/-! ## A turn in the middle of an item -/

theorem of_getElem?_modify {ws : List Worker} {f : Worker → Worker} {j : Nat}
    (hw : ws[i]? = some w) (hv : (ws.modify i f)[j]? = some v) :
    (j = i ∧ v = f w) ∨ (j ≠ i ∧ ws[j]? = some v) := by
  by_cases hj : j = i
  · subst hj
    rw [List.getElem?_modify_eq, hw] at hv
    exact .inl ⟨rfl, (Option.some.inj hv).symm⟩
  · rw [List.getElem?_modify_ne _ _ (Ne.symm hj)] at hv
    exact .inr ⟨hj, hv⟩

theorem getElem?_modify_self {ws : List Worker} {f : Worker → Worker} (hw : ws[i]? = some w) :
    (ws.modify i f)[i]? = some (f w) := by
  rw [List.getElem?_modify_eq, hw]
  rfl

theorem leads_goOn (hs : List Holder) (e : Engine) (pool : Pool)
    (hworkers : c'.workers = c.workers) (hsetup : c'.setup = c.setup)
    (hw : c.workers[i]? = some w) (hr : stage.rank = w.stage.rank + 1)
    (ho : Orderly (c'.goOn i stage) measure hs e pool) : Leads c measure i w (c'.goOn i stage) where
  setup := hsetup
  length := by rw [goOn, List.length_modify, hworkers]
  own := by
    refine ⟨_, getElem?_modify_self (hworkers ▸ hw), ?_⟩
    rw [Worker.progress, Worker.progress, hr]
    exact (Nat.add_assoc _ _ _).symm
  others j hj := (List.getElem?_modify_ne _ _ (Ne.symm hj)).trans (by rw [hworkers])
  orderly := ⟨hs, e, pool, ho⟩

theorem Counted.goOn (hc : Counted c hs e pool) (hworkers : c'.workers = c.workers)
    (hw : c.workers[i]? = some w) (hr : stage.rank = w.stage.rank + 1)
    (hh : w.stage.holder? = some h)
    (hfresh : c'.fresh = c.fresh + if 2 = w.stage.rank then 1 else 0)
    (htrees : e'.trees.length = e.trees.length + if 4 = w.stage.rank then 1 else 0)
    (hlayouts : e'.layouts = e.layouts + if 6 = w.stage.rank then 1 else 0)
    (hlength : hs'.length = hs.length) : Counted (c'.goOn i stage) hs' e' pool := by
  have hpassed (n : Nat) :
      (c'.goOn i stage).passed n = c.passed n + if n = w.stage.rank then 1 else 0 := by
    rw [passed_goOn (hworkers ▸ hw) hr, passed, passed, hworkers]
  have hfirst : 0 < w.stage.rank := by
    rw [← Stage.holder?_isSome, hh]
    rfl
  have hlast := stage.rank_le
  constructor
  · rw [hpassed, if_neg (by omega), hc.taken]
    rfl
  · rw [hlength, hc.allocated]
  · rw [hpassed, ← hc.fresh]
    exact hfresh
  · rw [hpassed, htrees, hc.built]
  · rw [hpassed, hlayouts, hc.settled]
  · rw [hpassed, if_neg (by omega), hc.back]
    rfl
  · exact hc.kept

/-- A turn after which the worker still has its holder changes no other holder. -/
theorem Orderly.goOn (ho : Orderly c measure hs e pool) (c' : Churn) (hw : c.workers[i]? = some w)
    (hlt : w.finished < c.setup.items) (hworkers : c'.workers = c.workers)
    (hsetup : c'.setup = c.setup) (hstore : c'.store = storeOf hs' e' pool)
    (hh : w.stage.holder? = some h) (hh' : stage.holder? = some h)
    (hother : ∀ k, k ≠ h → hs'[k]? = hs[k]?) (hhome : ∀ x ∈ hs', x.home = Store.sharedPool)
    (hengine : Willing e' measure) (hheld : Held hs' e'.trees)
    (hfits : stage.Fits c.setup measure hs' (item c.setup i w.finished))
    (hr : stage.rank = w.stage.rank + 1) (hcounted : Counted (c'.goOn i stage) hs' e' pool) :
    Leads c measure i w (c'.goOn i stage) := by
  refine leads_goOn hs' e' pool hworkers hsetup hw hr ?_
  have hw' : c'.workers[i]? = some w := hworkers ▸ hw
  have hback {j : Nat} {v : Worker} (hv : (c'.goOn i stage).workers[j]? = some v) :
      ∃ u, c.workers[j]? = some u ∧ u.stage.holder? = v.stage.holder? := by
    rcases of_getElem?_modify hw' hv with ⟨rfl, rfl⟩ | ⟨-, hv⟩
    · exact ⟨w, hw, hh.trans hh'.symm⟩
    · exact ⟨v, hworkers ▸ hv, rfl⟩
  have hlength : hs.length ≤ hs'.length := by
    have htaken := ho.counted.allocated
    have htaken' := hcounted.allocated
    omega
  constructor
  · exact hstore
  · exact hengine
  · exact hhome
  · intro j v hv
    rw [show (c'.goOn i stage).setup = c.setup from hsetup]
    rcases of_getElem?_modify hw' hv with ⟨rfl, rfl⟩ | ⟨hj, hv⟩
    · exact ⟨Nat.le_of_lt hlt, fun hend => absurd hend (Nat.ne_of_lt hlt), hfits⟩
    · rw [hworkers] at hv
      have hold := ho.workers j v hv
      refine ⟨hold.finished, hold.atEnd, hold.stage.congr fun k hk => hother k ?_⟩
      rintro rfl
      exact hj (ho.apart j i v w k hv hw hk hh)
  · intro j l u v k hu hv huk hvk
    obtain ⟨u', hu', hheld⟩ := hback hu
    obtain ⟨v', hv', hheld'⟩ := hback hv
    exact ho.apart j l u' v' k hu' hv' (hheld.trans huk) (hheld'.trans hvk)
  · intro k state hk
    by_cases hkh : k = h
    · exact .inr ⟨i, _, getElem?_modify_self hw', hkh ▸ hh'⟩
    · rw [stateAt, hother k hkh] at hk
      rcases ho.clean k state hk with hempty | ⟨j, v, hv, hvk⟩
      · exact .inl hempty
      · refine .inr ⟨j, v, ?_, hvk⟩
        have hj : j ≠ i := by
          rintro rfl
          obtain rfl := Option.some.inj (hw.symm.trans hv)
          exact hkh (Option.some.inj (hvk.symm.trans hh))
        exact (List.getElem?_modify_ne _ _ (Ne.symm hj)).trans (hworkers ▸ hv)
  · have hkept := ho.kept
    refine ⟨?_, hkept.room, hkept.nodup, fun k hk => Nat.lt_of_lt_of_le (hkept.lt k hk) hlength,
      fun k hk j v hv => ?_⟩
    · rw [show (c'.goOn i stage).setup = c.setup from hsetup]
      exact hkept.capacity
    · obtain ⟨u, hu, hsame⟩ := hback hv
      rw [← hsame]
      exact hkept.free k hk j u hu
  · exact hheld
  · exact hcounted

end Recycler.Churn

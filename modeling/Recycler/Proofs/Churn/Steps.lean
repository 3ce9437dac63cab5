import Recycler.Proofs.Churn.Order
import Recycler.Proofs.Store.Pool

/-!
# Turns by stage

Each turn of a worker that has items left leads an orderly churn to an orderly one
(`Orderly.stepStage`), with one lemma for each stage. The turns in the middle of an item change the
worker's own holder and its tree at most (`Orderly.goOn`); the first turn and the last one change
what the pool keeps.
-/

namespace Recycler.Churn

variable {c : Churn} {setup : Setup} {measure : Measure} {hs : List Holder} {e : Engine}
  {pool : Pool} {h i n : Nat} {w : Worker} {t : TreeRef}

/-! ## Holders and trees, turn by turn -/

theorem liveAt_onState_of_slot {f : Holder.State → Holder.State}
    (hf : ∀ state, (f state).slot = state.slot) (k : Nat) :
    liveAt (onState hs h f) k = liveAt hs k := by
  rw [liveAt, liveAt, stateAt, stateAt, getElem?_onState]
  cases hs[k]? with
  | none => rfl
  | some x => by_cases hk : h = k <;> simp [hk, hf]

theorem home_onState (hhome : ∀ x ∈ hs, x.home = Store.sharedPool)
    (f : Holder.State → Holder.State) :
    ∀ x ∈ onState hs h f, x.home = Store.sharedPool := by
  intro x hx
  obtain ⟨k, hk⟩ := List.getElem?_of_mem hx
  rw [getElem?_onState] at hk
  obtain ⟨y, hy, rfl⟩ := Option.map_eq_some_iff.1 hk
  have hyhome := hhome y (List.mem_of_getElem? hy)
  split
  · exact hyhome
  · exact hyhome

theorem Orderly.of_stage {stage : Stage} {finished : Nat}
    (ho : Orderly c measure hs e pool) (hw : c.workers[i]? = some ⟨finished, stage⟩) :
    stage.Fits c.setup measure hs (item c.setup i finished) := (ho.workers i _ hw).stage

/-- A turn that changes what the holder knows of its item, but not its tree. -/
theorem Orderly.onState {stage : Stage} (ho : Orderly c measure hs e pool) (c' : Churn)
    (f : Holder.State → Holder.State) (hw : c.workers[i]? = some w)
    (hlt : w.finished < c.setup.items) (hworkers : c'.workers = c.workers)
    (hsetup : c'.setup = c.setup) (hstore : c'.store = storeOf (onState hs h f) e pool)
    (hf : ∀ state, (f state).slot = state.slot)
    (hh : w.stage.holder? = some h) (hh' : stage.holder? = some h)
    (hr : stage.rank = w.stage.rank + 1)
    (htrees : (if 4 = w.stage.rank then 1 else 0) = 0)
    (hlayouts : (if 6 = w.stage.rank then 1 else 0) = 0)
    (hfresh : c'.fresh = c.fresh + if 2 = w.stage.rank then 1 else 0)
    (hfits : stage.Fits c.setup measure (Churn.onState hs h f) (item c.setup i w.finished)) :
    Leads c measure i w (c'.goOn i stage) := by
  refine ho.goOn c' hw hlt hworkers hsetup hstore hh hh' (fun k hk => getElem?_onState_of_ne f hk)
    (home_onState ho.home f) ho.engine (ho.held.congr fun k => liveAt_onState_of_slot hf k) hfits hr
    (ho.counted.goOn hworkers hw hr hh hfresh (by rw [htrees]; rfl)
      (by rw [hlayouts]; rfl) (length_onState f))

/-! ## In the middle of an item -/

section Stages

variable {it : Shared Descriptor} {finished : Nat}

theorem Orderly.stepConfigure (ho : Orderly c measure hs e pool)
    (hw : c.workers[i]? = some ⟨finished, .configure h⟩) (hlt : finished < c.setup.items) :
    Leads c measure i ⟨finished, .configure h⟩
      (c.stepStage i (item c.setup i finished) (.configure h)) := by
  have hx : stateAt hs h = some {} := ho.of_stage hw
  simp only [stepStage, ho.store]
  exact ho.onState { c with store := _ } (·.configure (item c.setup i finished) {} none) hw hlt rfl
    rfl rfl (fun _ => rfl) rfl rfl rfl rfl rfl rfl (stateAt_onState _ hx)

/-- The holder of an item has no height and is not valid when the item gets it. -/
theorem Orderly.stepInspect (ho : Orderly c measure hs e pool)
    (hw : c.workers[i]? = some ⟨finished, .inspect h⟩) (hlt : finished < c.setup.items) :
    Leads c measure i ⟨finished, .inspect h⟩
      (c.stepStage i (item c.setup i finished) (.inspect h)) := by
  have hx : stateAt hs h = some (configured (item c.setup i finished)) := ho.of_stage hw
  have hfresh : c.store.holders[h]?.any (fun x => x.state.height.isNone && !x.state.valid) := by
    obtain ⟨x, hfound, hstate⟩ := Option.map_eq_some_iff.1 hx
    rw [ho.store, storeOf, hfound, Option.any_some, hstate]
    rfl
  simp only [stepStage, hfresh, if_true]
  exact ho.goOn { c with fresh := c.fresh + 1 } hw hlt rfl rfl ho.store rfl rfl
    (fun _ _ => rfl) ho.home ho.engine ho.held hx rfl
    (ho.counted.goOn rfl hw rfl rfl rfl rfl rfl rfl)

theorem Orderly.stepOpenRequest (ho : Orderly c measure hs e pool)
    (hw : c.workers[i]? = some ⟨finished, .openRequest h⟩) (hlt : finished < c.setup.items) :
    Leads c measure i ⟨finished, .openRequest h⟩
      (c.stepStage i (item c.setup i finished) (.openRequest h)) := by
  have hx : stateAt hs h = some (configured (item c.setup i finished)) := ho.of_stage hw
  obtain ⟨x, hfound, hstate⟩ := Option.map_eq_some_iff.1 hx
  obtain ⟨component, hcomponent⟩ : ∃ component,
    (item c.setup i finished).value.component? = some component := ⟨_, rfl⟩
  have hopen := openRequest_storeOf e pool (c.call h) hfound (by rw [hstate]; rfl) hcomponent
    (by rw [hstate]; rfl) (by rw [hstate]; rfl)
  simp only [stepStage, ho.store, hopen, goOnOpened]
  refine ho.onState { c with store := _ } (·.request c.setup.bounds) hw hlt rfl rfl rfl
    (fun _ => rfl) rfl rfl rfl rfl rfl rfl ⟨stateAt_onState _ hx, rfl, hcomponent, ?_⟩
  rw [generation_onState, hfound]
  rfl

theorem Orderly.stepClaimTree {component : Component} {handle : WeakHandle}
    (ho : Orderly c measure hs e pool)
    (hw : c.workers[i]? = some ⟨finished, .claimTree h it component handle⟩)
    (hlt : finished < c.setup.items) :
    Leads c measure i ⟨finished, .claimTree h it component handle⟩
      (c.stepStage i (item c.setup i finished) (.claimTree h it component handle)) := by
  obtain ⟨hx, rfl, hcomponent, hgeneration⟩ := ho.of_stage hw
  obtain ⟨x, hfound, hstate⟩ := Option.map_eq_some_iff.1 hx
  rw [hfound, Option.map_some, Option.some.injEq] at hgeneration
  have hclaim := claimTree_storeOf pool (c.call h) (item c.setup i finished) component ho.engine
    hfound rfl hgeneration (by rw [hstate]; rfl) (by rw [hstate]; rfl)
  have hadopted := stateAt_onState (·.takeParked.adopt ⟨Churn.engine, e.trees.length⟩) hx
  have hother {k : Nat} (hk : k ≠ h) : (Churn.onState hs h
      (·.takeParked.adopt ⟨Churn.engine, e.trees.length⟩))[k]? = hs[k]? :=
    getElem?_onState_of_ne _ hk
  simp only [stepStage, ho.store, hclaim, goOnClaimed]
  refine ho.goOn { c with store := _ } hw hlt rfl rfl rfl rfl rfl
    (fun k hk => hother hk) (home_onState ho.home _)
    ⟨ho.engine.measure, ho.engine.gate, ho.engine.armed, ho.engine.refuses⟩ ?_
    ⟨⟨rfl, rfl, rfl, hcomponent⟩, hadopted⟩ rfl
    (ho.counted.goOn rfl hw rfl rfl rfl ?_ rfl (length_onState _))
  · refine ho.held.append rfl (liveAt_of_stateAt hx) (liveAt_of_stateAt hadopted) fun k hk => ?_
    exact liveAt_congr (hother hk)
  · exact List.length_append

theorem Orderly.stepEnter {r : Request} (ho : Orderly c measure hs e pool)
    (hw : c.workers[i]? = some ⟨finished, .enter r⟩) (hlt : finished < c.setup.items) :
    Leads c measure i ⟨finished, .enter r⟩
      (c.stepStage i (item c.setup i finished) (.enter r)) := by
  obtain ⟨hfor, hx⟩ := ho.of_stage hw
  obtain ⟨hengine, tree, htree, hr⟩ := ho.held.built _ r.tree (liveAt_of_stateAt hx)
  have henter := enterLayout_storeOf hs pool ho.engine hengine htree hr
  have hmeasure := measure_storeOf hs pool (l := r.layout) ho.engine hengine
  simp only [stepStage, ho.store, henter, hmeasure]
  refine ho.goOn { c with store := _ } hw hlt rfl rfl rfl rfl rfl (fun _ _ => rfl) ho.home
    ho.engine ho.held ⟨hfor, hx, ?_⟩ rfl
    (ho.counted.goOn rfl hw rfl rfl rfl rfl rfl rfl)
  rw [← hfor.bounds]
  rfl

theorem Orderly.stepSettle {r : Request} {size : Size} (ho : Orderly c measure hs e pool)
    (hw : c.workers[i]? = some ⟨finished, .settle r size⟩) (hlt : finished < c.setup.items) :
    Leads c measure i ⟨finished, .settle r size⟩
      (c.stepStage i (item c.setup i finished) (.settle r size)) := by
  obtain ⟨hfor, hx, hsize⟩ := ho.of_stage hw
  obtain ⟨hengine, -⟩ := ho.held.built _ r.tree (liveAt_of_stateAt hx)
  have hsettle := settleLayout_storeOf hs e pool (l := r.layout) size hengine
  simp only [stepStage, ho.store, hsettle]
  exact ho.goOn { c with store := _ } hw hlt rfl rfl rfl rfl rfl (fun _ _ => rfl) ho.home
    ⟨ho.engine.measure, ho.engine.gate, ho.engine.armed, ho.engine.refuses⟩
    (ho.held.modify fun _ => rfl) ⟨hfor, hx, hsize⟩ rfl
    (ho.counted.goOn rfl hw rfl rfl rfl (List.length_modify ..) rfl rfl)

/-- The layout of an item is one of its holder still when it is committed. -/
theorem isCurrent_adopted {r : Request} (hfor : IsFor setup it r) :
    (adopted setup it r.tree).isCurrent r.item r.tree := by
  have hsame : it.same r.item := by
    rw [hfor.item]
    exact decide_eq_true rfl
  simp [Holder.State.isCurrent, adopted, Holder.State.adopt, Slot.tree?, requested, configured,
    Holder.State.takeParked, Holder.State.request, Holder.State.configure, hsame]

theorem Orderly.stepCommit {r : Request} {size : Size} (ho : Orderly c measure hs e pool)
    (hw : c.workers[i]? = some ⟨finished, .commit r size⟩) (hlt : finished < c.setup.items) :
    Leads c measure i ⟨finished, .commit r size⟩
      (c.stepStage i (item c.setup i finished) (.commit r size)) := by
  obtain ⟨hfor, hx, rfl⟩ := ho.of_stage hw
  obtain ⟨x, hfound, hstate⟩ := Option.map_eq_some_iff.1 hx
  have hcommit := commitLayout_storeOf e pool (measure.size r.component c.setup.bounds) hfound
    (hstate ▸ isCurrent_adopted hfor)
  simp only [stepStage, ho.store, hcommit]
  exact ho.onState { c with store := _ } (·.commit _) hw hlt rfl rfl rfl (fun _ => rfl) rfl rfl rfl
    rfl rfl rfl
    ⟨r.component, r.tree, hfor.component, rfl, stateAt_onState _ hx⟩

theorem Orderly.stepJudge {outcome : Except Failure (Option Size)}
    (ho : Orderly c measure hs e pool)
    (hw : c.workers[i]? = some ⟨finished, .judge h outcome⟩) (hlt : finished < c.setup.items) :
    Leads c measure i ⟨finished, .judge h outcome⟩
      (c.stepStage i (item c.setup i finished) (.judge h outcome)) := by
  obtain ⟨component, t, -, -, hx⟩ := ho.of_stage hw
  exact ho.goOn (c.count _) hw hlt rfl rfl ho.store rfl rfl (fun _ _ => rfl) ho.home
    ho.engine ho.held ⟨t, liveAt_of_stateAt hx⟩ rfl
    (ho.counted.goOn rfl hw rfl rfl rfl rfl rfl rfl)

theorem Orderly.stepReset (ho : Orderly c measure hs e pool)
    (hw : c.workers[i]? = some ⟨finished, .reset h⟩) (hlt : finished < c.setup.items) :
    Leads c measure i ⟨finished, .reset h⟩
      (c.stepStage i (item c.setup i finished) (.reset h)) := by
  obtain ⟨t, hlive⟩ := ho.of_stage hw
  obtain ⟨hengine, -⟩ := ho.held.built h t hlive
  obtain ⟨state, hx, -⟩ := Option.bind_eq_some_iff.1 hlive
  obtain ⟨x, hfound, -⟩ := Option.map_eq_some_iff.1 hx
  have hreset := reset_storeOf e pool hlive hengine
  have hempty : stateAt (hs.modify h Holder.reset) h = some {} := by
    rw [stateAt, List.getElem?_modify_eq, hfound]
    rfl
  have hother {k : Nat} (hk : k ≠ h) : (hs.modify h Holder.reset)[k]? = hs[k]? :=
    List.getElem?_modify_ne _ _ (Ne.symm hk)
  simp only [stepStage, ho.store, hreset]
  refine ho.goOn { c with store := _ } hw hlt rfl rfl rfl rfl rfl
    (fun k hk => hother hk) (fun y hy => ?_)
    ⟨ho.engine.measure, ho.engine.gate, ho.engine.armed, ho.engine.refuses⟩
    (ho.held.release hlive (liveAt_of_stateAt hempty) fun k hk => ?_) hempty rfl
    (ho.counted.goOn rfl hw rfl rfl rfl (List.length_modify ..) rfl
      (List.length_modify ..))
  · obtain ⟨k, hk⟩ := List.getElem?_of_mem hy
    by_cases hkh : k = h
    · subst hkh
      rw [List.getElem?_modify_eq, hfound] at hk
      obtain rfl := Option.some.inj hk
      exact ho.home x (List.mem_of_getElem? hfound)
    · rw [hother hkh] at hk
      exact ho.home y (List.mem_of_getElem? hk)
  · rw [liveAt, liveAt, stateAt, stateAt, hother hk]

/-! ## The first turn and the last -/

/-- A worker takes a holder that nobody has. -/
theorem Orderly.goOnTaken {hs' : List Holder} {pool' : Pool}
    (ho : Orderly c measure hs e pool) (c' : Churn) (hw : c.workers[i]? = some ⟨finished, .take⟩)
    (hlt : finished < c.setup.items) (hworkers : c'.workers = c.workers)
    (hsetup : c'.setup = c.setup) (hstore : c'.store = storeOf hs' e pool')
    (hfree : ∀ (j : Nat) (v : Worker), c.workers[j]? = some v → v.stage.holder? ≠ some h)
    (hother : ∀ k, k ≠ h → hs'[k]? = hs[k]?) (hempty : stateAt hs' h = some {})
    (hlive : liveAt hs h = none) (hhome : ∀ x ∈ hs', x.home = Store.sharedPool)
    (hkept : Kept (c'.goOn i (.configure h)) hs' pool')
    (hcounted : Counted (c'.goOn i (.configure h)) hs' e pool') :
    Leads c measure i ⟨finished, .take⟩ (c'.goOn i (.configure h)) := by
  refine leads_goOn hs' e pool' hworkers hsetup hw rfl ?_
  have hw' : c'.workers[i]? = some ⟨finished, .take⟩ := hworkers ▸ hw
  constructor
  · exact hstore
  · exact ho.engine
  · exact hhome
  · intro j v hv
    rw [show (c'.goOn i (.configure h)).setup = c.setup from hsetup]
    rcases of_getElem?_modify hw' hv with ⟨rfl, rfl⟩ | ⟨hj, hv⟩
    · exact ⟨Nat.le_of_lt hlt, fun hend => absurd hend (Nat.ne_of_lt hlt), hempty⟩
    · rw [hworkers] at hv
      have hold := ho.workers j v hv
      have hnot := hfree j v hv
      exact ⟨hold.finished, hold.atEnd, hold.stage.congr fun k hk => hother k fun hkh =>
        hnot (hkh ▸ hk)⟩
  · intro j l u v k hu hv huk hvk
    rcases of_getElem?_modify hw' hu with ⟨hj, rfl⟩ | ⟨-, hu'⟩ <;>
      rcases of_getElem?_modify hw' hv with ⟨hl, rfl⟩ | ⟨-, hv'⟩
    · rw [hj, hl]
    · exact absurd (hvk.trans huk.symm) (hfree l v (hworkers ▸ hv'))
    · exact absurd (huk.trans hvk.symm) (hfree j u (hworkers ▸ hu'))
    · exact ho.apart j l u v k (hworkers ▸ hu') (hworkers ▸ hv') huk hvk
  · intro k state hk
    by_cases hkh : k = h
    · exact .inr ⟨i, _, getElem?_modify_self hw', congrArg some hkh.symm⟩
    · rw [stateAt, hother k hkh] at hk
      rcases ho.clean k state hk with hclean | ⟨j, v, hv, hvk⟩
      · exact .inl hclean
      · refine .inr ⟨j, v, ?_, hvk⟩
        have hj : j ≠ i := by
          rintro rfl
          obtain rfl := Option.some.inj (hw.symm.trans hv)
          cases hvk
        exact (List.getElem?_modify_ne _ _ (Ne.symm hj)).trans (hworkers ▸ hv)
  · exact hkept
  · refine ho.held.congr fun k => ?_
    by_cases hkh : k = h
    · rw [hkh, hlive, liveAt_of_stateAt hempty]
      rfl
    · exact liveAt_congr (hother k hkh)
  · exact hcounted

/-- A worker that has just taken a holder found no other worker with it. -/
theorem Kept.take {c' : Churn} {hs' : List Holder} {pool' : Pool} (hkept : Kept c hs pool)
    (hw : c.workers[i]? = some w) (hworkers : c'.workers = c.workers)
    (hsetup : c'.setup = c.setup) (hcapacity : pool'.capacity = pool.capacity)
    (hidle : pool'.idle <:+ pool.idle) (hh : h ∉ pool'.idle) (hlength : hs.length ≤ hs'.length) :
    Kept (c'.goOn i (.configure h)) hs' pool' := by
  constructor
  · rw [hcapacity, hkept.capacity, ← hsetup]
    rfl
  · rw [hcapacity]
    exact Nat.le_trans hidle.length_le hkept.room
  · exact hkept.nodup.sublist hidle.sublist
  · exact fun k hk => Nat.lt_of_lt_of_le (hkept.lt k (hidle.subset hk)) hlength
  · intro k hk j v hv hvk
    rcases of_getElem?_modify (hworkers ▸ hw) hv with ⟨rfl, rfl⟩ | ⟨-, hv⟩
    · obtain rfl := Option.some.inj hvk
      exact hh hk
    · exact hkept.free k (hidle.subset hk) j v (hworkers ▸ hv) hvk

theorem Counted.take {c' : Churn} {hs' : List Holder} {pool' : Pool} {v : Worker}
    (hc : Counted c hs e pool) (hw : c.workers[i]? = some v) (hv : v.stage.rank = 0)
    (hworkers : c'.workers = c.workers) (hfresh : c'.fresh = c.fresh)
    (htaken : pool'.stats.hits + pool'.stats.misses = pool.stats.hits + pool.stats.misses + 1)
    (hallocated : pool'.stats.misses = hs'.length)
    (hkept : pool'.stats.hits + pool'.idle.length = pool.stats.hits + pool.idle.length)
    (hrecycled : pool'.stats.recycled = pool.stats.recycled)
    (hdropped : pool'.stats.dropped = pool.stats.dropped) :
    Counted (c'.goOn i (.configure h)) hs' e pool' := by
  have hpassed (n : Nat) :
      (c'.goOn i (.configure h)).passed n = c.passed n + if n = 0 then 1 else 0 := by
    rw [passed_goOn (w := v) (hworkers ▸ hw) (by rw [hv]; rfl), passed, passed, hworkers, hv]
  constructor
  · rw [hpassed, htaken, hc.taken]
    rfl
  · exact hallocated
  · rw [hpassed, ← hc.fresh]
    exact hfresh
  · rw [hpassed, hc.built]
    rfl
  · rw [hpassed, hc.settled]
    rfl
  · rw [hpassed, hrecycled, hdropped, hc.back]
    rfl
  · rw [hkept, hrecycled, hc.kept]

theorem Orderly.stepTake (ho : Orderly c measure hs e pool)
    (hw : c.workers[i]? = some ⟨finished, .take⟩) (hlt : finished < c.setup.items) :
    Leads c measure i ⟨finished, .take⟩ (c.stepStage i (item c.setup i finished) .take) := by
  cases hidle : pool.idle with
  | nil =>
      have htake := takeHolder_of_none_idle hs e hidle
      have htaken : pool.take.1 =
          { pool with stats := { pool.stats with misses := pool.stats.misses + 1 } } := by
        rw [Pool.take, hidle]
      simp only [stepStage, ho.store, htake]
      have hnew : (hs ++ [Holder.fresh Store.sharedPool])[hs.length]? =
          some (Holder.fresh Store.sharedPool) := List.getElem?_concat_length
      refine ho.goOnTaken { c with store := _ } hw hlt rfl rfl rfl ?_ ?_ ?_ ?_ ?_
        (ho.kept.take hw rfl rfl (by rw [htaken]) (by simp only [htaken, List.suffix_refl])
          (by rw [htaken, hidle]; exact List.not_mem_nil) (by simp))
        (ho.counted.take hw rfl rfl rfl ?_ ?_ ?_ ?_ ?_)
      · intro j v hv hvh
        obtain ⟨x, hx⟩ := (ho.workers j v hv).stage.exists_holder hvh
        exact Nat.lt_irrefl _ (List.getElem?_eq_some_iff.1 hx).1
      · intro k hk
        rw [List.getElem?_append]
        split
        · rfl
        · rw [List.getElem?_eq_none (by simp; omega), List.getElem?_eq_none (by omega)]
      · rw [stateAt, hnew]
        rfl
      · rw [liveAt, stateAt, List.getElem?_eq_none (Nat.le_refl _)]
        rfl
      · intro x hx
        rcases List.mem_append.1 hx with hx | hx
        · exact ho.home x hx
        · obtain rfl := List.mem_singleton.1 hx
          rfl
      · rw [htaken]
        rfl
      · rw [htaken, List.length_append, List.length_singleton, ← ho.counted.allocated]
      all_goals rw [htaken]
  | cons h rest =>
      have htake := takeHolder_of_idle hs e hidle
      have htaken : pool.take.1 = { pool with
          idle := rest, stats := { pool.stats with hits := pool.stats.hits + 1 } } := by
        rw [Pool.take, hidle]
      simp only [stepStage, ho.store, htake]
      have hmem : h ∈ pool.idle := hidle ▸ List.mem_cons_self
      have hfree := ho.kept.free h hmem
      have hnodup := ho.kept.nodup
      rw [hidle, List.nodup_cons] at hnodup
      obtain ⟨x, hx⟩ : ∃ x, hs[h]? = some x :=
        ⟨_, List.getElem?_eq_getElem (ho.kept.lt h hmem)⟩
      have hempty : stateAt hs h = some {} := by
        have hstate : stateAt hs h = some x.state := by rw [stateAt, hx, Option.map_some]
        rcases ho.clean h _ hstate with hempty | ⟨j, v, hv, hvh⟩
        · rw [hstate, hempty]
        · exact absurd hvh (hfree j v hv)
      refine ho.goOnTaken { c with store := _ } hw hlt rfl rfl rfl hfree
        (fun _ _ => rfl) hempty (liveAt_of_stateAt hempty) ho.home
        (ho.kept.take hw rfl rfl (by rw [htaken]) ?_ (by rw [htaken]; exact hnodup.1)
          (Nat.le_refl _)) (ho.counted.take hw rfl rfl rfl ?_ ?_ ?_ ?_ ?_)
      · rw [htaken, hidle]
        exact List.suffix_cons h rest
      · rw [htaken]
        exact Nat.add_right_comm _ _ _
      · rw [htaken]
        exact ho.counted.allocated
      · rw [htaken, hidle, List.length_cons]
        exact Nat.add_right_comm _ _ _
      all_goals rw [htaken]

/-- No other worker has the holder that a worker gives back. -/
theorem Orderly.not_isElsewhere (ho : Orderly c measure hs e pool) (hw : c.workers[i]? = some w)
    (hh : w.stage.holder? = some h) : c.isElsewhere i h = false := by
  rw [isElsewhere, List.any_eq_false]
  rintro ⟨v, j⟩ hv
  have hv : c.workers[j]? = some v := List.mem_zipIdx_iff_getElem?.1 hv
  simp only [ne_eq, Bool.and_eq_true, decide_eq_true_eq, not_and]
  exact fun hj hvh => hj (ho.apart j i v w h hv hw hvh hh)

/-- A worker that has just given its holder back has none. -/
theorem Kept.offer {c' : Churn} (hkept : Kept c hs pool) (hsetup : c'.setup = c.setup)
    (hlt : h < hs.length) (hnot : h ∉ pool.idle)
    (hback : ∀ (j : Nat) (v : Worker) (k : Nat), c'.workers[j]? = some v →
      v.stage.holder? = some k → k ≠ h ∧ c.workers[j]? = some v) :
    Kept c' hs (pool.offer h) := by
  have hmem {k : Nat} (hk : k ∈ (pool.offer h).idle) : k = h ∨ k ∈ pool.idle := by
    rw [Store.idle_offer] at hk
    split at hk
    · exact List.mem_cons.1 hk
    · exact .inr hk
  constructor
  · rw [Store.capacity_offer, hkept.capacity, hsetup]
  · rw [Store.capacity_offer, Store.idle_offer]
    split
    · next hroom => exact hroom
    · exact hkept.room
  · rw [Store.idle_offer]
    split
    · exact List.nodup_cons.2 ⟨hnot, hkept.nodup⟩
    · exact hkept.nodup
  · intro k hk
    rcases hmem hk with rfl | hk
    · exact hlt
    · exact hkept.lt k hk
  · intro k hk j v hv hvk
    obtain ⟨hkh, hv⟩ := hback j v k hv hvk
    exact hkept.free k ((hmem hk).resolve_left hkh) j v hv hvk

theorem Counted.finish (hc : Counted c hs e pool) (c' : Churn) (hworkers : c'.workers = c.workers)
    (hfresh : c'.fresh = c.fresh) (hw : c.workers[i]? = some w) (hr : w.stage.rank = 10) (h : Nat) :
    Counted (c'.finish i) hs e (pool.offer h) := by
  have hpassed {n : Nat} (hn : n ≤ 10) :
      (c'.finish i).passed n = c.passed n + if n = 10 then 1 else 0 := by
    rw [passed_finish (hworkers ▸ hw) hr hn, passed, passed, hworkers]
  constructor
  · rw [hpassed (by decide), if_neg (by decide), ← hc.taken]
    unfold Pool.offer
    split <;> rfl
  · rw [← hc.allocated]
    unfold Pool.offer
    split <;> rfl
  · rw [hpassed (by decide), if_neg (by decide), ← hc.fresh]
    exact hfresh
  · rw [hpassed (by decide), if_neg (by decide)]
    exact hc.built
  · rw [hpassed (by decide), if_neg (by decide)]
    exact hc.settled
  · rw [hpassed (by decide), if_pos rfl, ← hc.back]
    unfold Pool.offer
    split
    · exact Nat.add_right_comm _ _ _
    · rfl
  · have hkept := hc.kept
    unfold Pool.offer
    split
    · rw [← hkept]
      rfl
    · exact hkept

theorem Orderly.stepGiveBack (ho : Orderly c measure hs e pool)
    (hw : c.workers[i]? = some ⟨finished, .giveBack h⟩) (hlt : finished < c.setup.items) :
    Leads c measure i ⟨finished, .giveBack h⟩
      (c.stepStage i (item c.setup i finished) (.giveBack h)) := by
  have hempty : stateAt hs h = some {} := ho.of_stage hw
  obtain ⟨x, hx, -⟩ := Option.map_eq_some_iff.1 hempty
  have hgive := giveBack_storeOf e pool hx (ho.home x (List.mem_of_getElem? hx))
  have helse := ho.not_isElsewhere hw rfl
  have hresult : c.stepStage i (item c.setup i finished) (.giveBack h) =
      { c with store := storeOf hs e (pool.offer h) }.finish i := by
    simp only [stepStage, ho.store, helse, hgive]
  rw [hresult]
  have hback {j : Nat} {v : Worker}
      (hv : ({ c with store := storeOf hs e (pool.offer h) }.finish i).workers[j]? = some v) :
      (j = i ∧ v = { finished := finished + 1 }) ∨ (j ≠ i ∧ c.workers[j]? = some v) :=
    of_getElem?_modify hw hv
  refine ⟨rfl, List.length_modify .., ⟨_, getElem?_modify_self hw, ?_⟩,
    fun j hj => List.getElem?_modify_ne _ _ (Ne.symm hj), hs, e, pool.offer h, ?_⟩
  · exact Nat.succ_mul _ _
  constructor
  · rfl
  · exact ho.engine
  · exact ho.home
  · intro j v hv
    rcases hback hv with ⟨rfl, rfl⟩ | ⟨-, hv⟩
    · exact ⟨hlt, fun _ => rfl, trivial⟩
    · exact ho.workers j v hv
  · intro j l u v k hu hv huk hvk
    rcases hback hu with ⟨-, rfl⟩ | ⟨-, hu⟩
    · cases huk
    · rcases hback hv with ⟨-, rfl⟩ | ⟨-, hv⟩
      · cases hvk
      · exact ho.apart j l u v k hu hv huk hvk
  · intro k state hk
    rcases ho.clean k state hk with hclean | ⟨j, v, hv, hvk⟩
    · exact .inl hclean
    · by_cases hj : j = i
      · subst hj
        obtain rfl := Option.some.inj (hw.symm.trans hv)
        obtain rfl := Option.some.inj hvk
        exact .inl (Option.some.inj (hk.symm.trans hempty))
      · exact .inr ⟨j, v, (List.getElem?_modify_ne _ _ (Ne.symm hj)).trans hv, hvk⟩
  · refine ho.kept.offer rfl (List.getElem?_eq_some_iff.1 hx).1
      (fun hmem => ho.kept.free h hmem i _ hw rfl) fun j v k hv hvk => ?_
    rcases hback hv with ⟨-, rfl⟩ | ⟨hj, hv⟩
    · cases hvk
    · exact ⟨fun hkh => hj (ho.apart j i v _ k hv hw hvk (congrArg some hkh.symm)), hv⟩
  · exact ho.held
  · exact ho.counted.finish { c with store := storeOf hs e (pool.offer h) } rfl rfl hw rfl h

end Stages

theorem Orderly.stepStage (ho : Orderly c measure hs e pool) (hw : c.workers[i]? = some w)
    (hlt : w.finished < c.setup.items) :
    Leads c measure i w (c.stepStage i (item c.setup i w.finished) w.stage) := by
  obtain ⟨finished, stage⟩ := w
  cases stage with
  | take => exact ho.stepTake hw hlt
  | configure h => exact ho.stepConfigure hw hlt
  | inspect h => exact ho.stepInspect hw hlt
  | openRequest h => exact ho.stepOpenRequest hw hlt
  | claimTree h it component handle => exact ho.stepClaimTree hw hlt
  | enter r => exact ho.stepEnter hw hlt
  | settle r size => exact ho.stepSettle hw hlt
  | commit r size => exact ho.stepCommit hw hlt
  | judge h outcome => exact ho.stepJudge hw hlt
  | reset h => exact ho.stepReset hw hlt
  | giveBack h => exact ho.stepGiveBack hw hlt

end Recycler.Churn

import Recycler.Proofs.Session.Sound
import Recycler.Proofs.Store.History
import Recycler.Proofs.Sum

/-!
# Holders at rest

In unbroken runs a holder that is idle in a pool has everything a new one has, the generation apart,
and nobody can reach it: no register refers to it, no work is under way for it, and every weak
handle to it is stale. A release that has begun leaves its holder in such a state but for the
reference that it holds itself (`Spent`).
-/

namespace Recycler

namespace Session

variable {s s' : Session} {i : Nat} {f g : Frame} {p h : Nat}

/-- Nobody refers to a holder: neither a register nor the work under way. -/
structure Unreferred (s : Session) (h : Nat) : Prop where
  unheld : ¬ s.Holds h
  workless : ∀ j, ∀ f ∈ s.work j, f.holder? ≠ some h

/-- Every weak handle to a holder is stale. -/
def Cut (s : Session) (h : Nat) : Prop :=
  ∀ w, s.Keeps w ∨ s.store.Listens w → w.holder = h → s.store.Stale w

structure AtRest (s : Session) (p h : Nat) : Prop extends Unreferred s h where
  fresh : ∃ g, s.store.holders[h]? = some { Holder.fresh p with generation := g }
  cut : s.Cut h

structure Spent (s : Session) (h : Nat) : Prop where
  fresh : ∃ p g, s.store.holders[h]? = some { Holder.fresh p with generation := g }
  cut : s.Cut h
  absent : ∀ p, ¬ s.store.Idles p h

structure Rested (s : Session) : Prop where
  idle : ∀ p h, s.store.Idles p h → s.AtRest p h
  nodup : ∀ p pool, s.store.pool? p = some pool → pool.idle.Nodup
  releasing : ∀ j h, .giveBack h ∈ s.work j → s.Spent h

theorem isReleasing_iff : s.isReleasing ↔ ∃ j h, .giveBack h ∈ s.work j := by
  rw [isReleasing, List.any_eq_true]
  constructor
  · rintro ⟨t, ht, hany⟩
    obtain ⟨f, hf, hgive⟩ := List.any_eq_true.1 hany
    obtain ⟨j, hj⟩ := List.getElem?_of_mem ht
    cases f with
    | giveBack h => exact ⟨j, h, by simp [work, hj, hf, Frame.isServe]⟩
    | _ => cases hgive
  · rintro ⟨j, h, hmem⟩
    cases ht : s.threads[j]? with
    | none => simp [work, ht] at hmem
    | some t =>
        simp only [work, ht, Option.map_some, Option.getD_some, List.mem_filter] at hmem
        exact ⟨t, List.mem_of_getElem? ht, List.any_eq_true.2 ⟨_, hmem.1, rfl⟩⟩

theorem mem_stack_of_mem_work {j : Nat} (hf : f ∈ s.work j) :
    ∃ t ∈ s.threads, f ∈ t.stack := by
  unfold work at hf
  cases ht : s.threads[j]? with
  | none => simp [ht] at hf
  | some t =>
      simp only [ht, Option.map_some, Option.getD_some, List.mem_filter] at hf
      exact ⟨t, List.mem_of_getElem? ht, hf.1⟩

/-- The count of references leaves none out. -/
theorem unreferred_of_references (h0 : ¬ 0 < s.references h) : s.Unreferred h := by
  rw [references] at h0
  constructor
  · rintro ⟨name, hn⟩
    have hmem := Keyed.mem_of_find hn
    have hpos : 0 < s.registers.handles.entries.countP (·.2 = h) :=
      List.countP_pos_iff.2 ⟨_, hmem, by simp⟩
    omega
  · intro j f hf hh
    obtain ⟨t, ht, hf⟩ := mem_stack_of_mem_work hf
    have hpos : 0 < t.references h := List.countP_pos_iff.2 ⟨f, hf, by simp [hh]⟩
    have hle := le_sum_of_mem (·.references h) ht
    omega

theorem unreferred_of_isAlive (h0 : s.isAlive h = false) : s.Unreferred h := by
  rw [isAlive, Bool.or_eq_false_iff] at h0
  exact unreferred_of_references (of_decide_eq_false h0.1)

/-! ## Work for a holder -/

theorem holder?_of_mem_launchFrames {t : Store} {r : Request} (hg : g ∈ launchFrames t r)
    (hh : g.holder? = some h) : r.call.holder = h := by
  rcases of_mem_launchFrames hg with rfl | rfl | rfl
  · cases hh
  · exact Option.some.inj hh
  · exact Option.some.inj hh

/-- New work for a holder begins at a handle, or goes on with work that was for it before. -/
theorem holder?_of_ensues {fs : List Frame} (he : Ensues s f fs) (hg : g ∈ fs)
    (hh : g.holder? = some h) : s.Holds h ∨ (f.holder? = some h ∧ f.isGiveBack = false) := by
  cases he with
  | nothing => cases hg
  | request c hc =>
      obtain rfl := List.mem_singleton.1 hg
      exact .inl (Option.some.inj hh ▸ hc)
  | release hn =>
      obtain rfl := List.mem_singleton.1 hg
      exact .inl (Option.some.inj hh ▸ ⟨_, hn⟩)
  | reply c hl =>
      obtain rfl := List.mem_singleton.1 hg
      cases hh
  | background c hl =>
      obtain rfl := List.mem_singleton.1 hg
      cases hh
  | runWaiting =>
      obtain rfl := List.mem_singleton.1 hg
      cases hh
  | script step rest =>
      simp only [List.mem_cons, List.not_mem_nil, or_false] at hg
      rcases hg with rfl | rfl | rfl <;> cases hh
  | opened call =>
      right
      refine ⟨?_, rfl⟩
      unfold openingFrames at hg
      split at hg
      · next store r ho =>
          obtain ⟨rfl, -⟩ := live?_of_openRequest (congrArg Prod.snd ho)
          exact congrArg some (holder?_of_mem_launchFrames hg hh)
      · obtain rfl := List.mem_singleton.1 hg
        exact hh
      · simp only [List.mem_cons, List.not_mem_nil, or_false] at hg
        rcases hg with rfl | rfl
        · cases hh
        · exact hh
      · cases hg
  | claimed call item component handle listener =>
      right
      refine ⟨?_, rfl⟩
      unfold claimFrames at hg
      split at hg
      · exact congrArg some (holder?_of_mem_launchFrames hg hh)
      · exact congrArg some (holder?_of_mem_launchFrames hg hh)
      · cases hg
  | layout l sequel hs =>
      obtain rfl := List.mem_singleton.1 hg
      exact .inr ⟨by cases sequel <;> exact hh, rfl⟩
  | dequeued remaining count hq hl =>
      simp only [List.mem_cons, List.not_mem_nil, or_false] at hg
      rcases hg with rfl | rfl <;> cases hh
  | served hq hl =>
      simp only [List.mem_cons, List.not_mem_nil, or_false] at hg
      rcases hg with rfl | rfl <;> cases hh

/-- No act is about a holder that nobody can reach. -/
theorem subject?_ne {a : Store.Act} (hu : ¬ s.Holds h) (hcut : s.Cut h)
    (hf : f.holder? = some h → f.isGiveBack) (ha : a ∈ s.frameActs i f) :
    a.subject? ≠ some h := by
  intro hsub
  have hlic := licensed ha
  cases a with
  | change k c =>
      obtain rfl := Option.some.inj hsub
      exact hu hlic.1
  | advance k p =>
      obtain rfl := Option.some.inj hsub
      exact hu hlic
  | evict k =>
      obtain rfl := Option.some.inj hsub
      exact hu hlic
  | reset k =>
      obtain rfl := Option.some.inj hsub
      obtain ⟨name, hn, -⟩ := hlic
      exact hu ⟨name, hn⟩
  | setReadyListener k l =>
      obtain rfl := Option.some.inj hsub
      exact hu hlic
  | openRequest call =>
      obtain rfl : f = .openRequest call := hlic
      exact Bool.false_ne_true (hf hsub)
  | claimTree call item component handle listener =>
      obtain rfl : f = .claimTree call item component handle listener := hlic
      exact Bool.false_ne_true (hf hsub)
  | commitLayout r size =>
      obtain ⟨l, rfl⟩ := hlic
      exact Bool.false_ne_true (hf hsub)
  | confirmLayout r =>
      obtain rfl : f = .confirm r := hlic
      exact Bool.false_ne_true (hf hsub)
  | writeHeight w height =>
      obtain ⟨hgen, hw⟩ := hlic
      have hstale := (hcut w hw (Option.some.inj hsub)).isOfGeneration
      rw [hgen] at hstale
      cases hstale
  | _ => cases hsub

/-- A holder stays as it is in a step with no act about it. -/
theorem holders_frameActs {x : Holder} (hx : s.store.holders[h]? = some x)
    (hsub : ∀ a ∈ s.frameActs i f, a.subject? ≠ some h)
    (hacq : ∀ a ∈ s.frameActs i f, a.acquires s.store h = false) :
    (s.store.acts (s.frameActs i f)).holders[h]? = some x := by
  rcases s.acquires_alone i f with ⟨p, item, policy, factory, hone⟩ | hnone
  · rw [hone] at hsub hacq ⊢
    have hkept := s.store.holders_act (.acquire p item policy factory) hx
    rwa [s.store.onHolder_of_ne x (hsub _ List.mem_cons_self) (hacq _ List.mem_cons_self)] at hkept
  · refine s.store.holders_acts_of_ne hx hsub fun a ha t => ?_
    exact t.acquires_eq_false h fun p item policy factory heq =>
      hnone p item policy factory (heq ▸ ha)

/-- A holder that no pool keeps is not acquired by an item. -/
theorem unoffered_of_not_idles (hidle : ∀ p, ¬ s.store.Idles p h) (m : Moment) :
    s.store.Unoffered h (s.momentActs m) := by
  cases m with
  | carry i =>
      rw [momentActs, acts]
      cases s.top? i with
      | none => trivial
      | some g =>
          dsimp only
          rcases (s.off i).acquires_alone i g with ⟨p, item, policy, factory, hone⟩ | hnone
          · rw [hone]
            exact ⟨decide_eq_false fun hp => hidle p (.of_offered? _ hp), trivial⟩
          · exact Store.unoffered_of_no_acquire _ h hnone
  | give i c => trivial
  | look k => trivial

/-- A holder that no pool keeps at any time of a run is not acquired in it. -/
theorem unoffered_runActs {ms : List Moment} (hrun : s.follow? ms = some s')
    (hidle : ∀ ns u, ns <+: ms → s.follow? ns = some u → ∀ p, ¬ u.store.Idles p h) :
    s.store.Unoffered h (s.runActs ms) := by
  induction ms generalizing s with
  | nil => trivial
  | cons m ms ih =>
      obtain ⟨t, ht, hrun⟩ := follow?_cons_eq_some.1 hrun
      rw [runActs_cons ht, Store.unoffered_append, ← store_next? ht]
      refine ⟨unoffered_of_not_idles (hidle [] s List.nil_prefix rfl) m,
        ih hrun fun ns u hns hu => ?_⟩
      exact hidle (m :: ns) u (List.cons_prefix_cons.2 ⟨rfl, hns⟩)
        (follow?_cons_eq_some.2 ⟨t, ht, hu⟩)

/-! ## What a step does to a holder at rest -/

theorem Cut.turn (hcut : s.Cut h) (hu : f.isGiveBack = false → ¬ s.Holds h)
    (hf : f.holder? = some h → f.isGiveBack)
    (hsound : f.Sound s.store) (ht : Turn s i f s') : s'.Cut h := by
  have hlater {w : WeakHandle} (hw : s.store.Stale w) : s'.store.Stale w :=
    ht.store ▸ Store.acts_induction (P := (·.Stale w)) (fun t a hw => hw.act a) hw _
  rintro w (hw | hw) hwh
  · rcases ht.weaks w hw with hw | ⟨c, k, x, rfl, hk, -, rfl⟩
    · exact hlater (hcut w (.inl hw) hwh)
    · exact absurd (hwh ▸ hk) (hu rfl)
  · rw [ht.store] at hw
    rcases s.store.listens_acts hw with
      hw | ⟨l, hl, ⟨e, c, ha, hc⟩ | ⟨call, item, component, handle, ha⟩⟩
    · exact hlater (hcut w (.inr hw) hwh)
    · have hnone : l.handle = none := licensed ha l hc
      rw [hnone] at hl
      cases hl
    · obtain rfl : f = .claimTree call item component handle (some l) := licensed ha
      obtain ⟨hcall, -, -, hlistener⟩ := hsound
      obtain rfl := Option.some.inj (hl.symm.trans (hlistener l rfl))
      exact absurd (hf (congrArg some (hcall.symm.trans hwh))) Bool.false_ne_true

theorem Unreferred.turn (hu : s.Unreferred h) (hcut : s.Cut h)
    (hf : f.holder? = some h → f.isGiveBack) (hlt : h < s.store.holders.length)
    (hacq : ∀ a ∈ s.frameActs i f, a.acquires s.store h = false) (ht : Turn s i f s') :
    s'.Unreferred h := by
  constructor
  · intro hh
    rcases ht.handles h hh with hh | ⟨p, item, policy, factory, ha, htaken⟩ | ⟨w, hw, hres⟩
    · exact hu.unheld hh
    · have hnot := hacq _ ha
      cases hp : s.store.offered? p with
      | none =>
          rw [s.store.takeHolder_of_not_offered? hp] at htaken
          exact Nat.ne_of_lt hlt htaken
      | some k =>
          rw [s.store.takeHolder_of_offered? hp] at htaken
          obtain rfl : h = k := htaken
          exact of_decide_eq_false hnot hp
    · obtain ⟨hwh, hgen⟩ := eq_of_resolve? hres
      have hstale := (hcut w (.inl hw) hwh).isOfGeneration
      rw [hgen] at hstale
      cases hstale
  · intro j g hg hh
    rcases ht.mem_work hg with hg | hg | ⟨-, fs, hfs, hg, -⟩
    · exact hu.workless j g hg hh
    · cases hg <;> cases hh
    · rcases holder?_of_ensues hfs hg hh with hheld | ⟨hfh, hgive⟩
      · exact hu.unheld hheld
      · rw [hf hfh] at hgive
        cases hgive

theorem AtRest.turn (hr : s.AtRest p h) (hf : f.holder? = some h → f.isGiveBack)
    (hsound : f.Sound s.store) (hacq : ∀ a ∈ s.frameActs i f, a.acquires s.store h = false)
    (ht : Turn s i f s') : s'.AtRest p h := by
  obtain ⟨g, hg⟩ := hr.fresh
  refine ⟨hr.toUnreferred.turn hr.cut hf (lt_of_getElem? hg) hacq ht, ⟨g, ?_⟩,
    hr.cut.turn (fun _ => hr.unheld) hf hsound ht⟩
  rw [ht.store]
  exact holders_frameActs hg (fun a ha => subject?_ne hr.unheld hr.cut hf ha) hacq

/-- An idle holder that an item acquires is idle no more. -/
theorem not_acquired (hr : s.Rested) (hold : s.store.Idles p h) (ht : Turn s i f s')
    (hnew : s'.store.Idles p h) {a : Store.Act} (ha : a ∈ s.frameActs i f) :
    a.acquires s.store h = false := by
  cases a with
  | acquire q item policy factory =>
      refine decide_eq_false fun hq => ?_
      obtain ⟨pool', hpool', hmem⟩ := hnew
      rw [ht.store, frameActs_eq_of_acquire ha, Store.acts_cons, Store.acts_nil] at hpool'
      rcases s.store.restocked_act hpool' with heq | ⟨pool, hpool, hidle⟩
      · cases heq
      · generalize pool'.idle = idle at hidle hmem
        cases hidle with
        | kept htakes =>
            obtain ⟨g, hg⟩ := (hr.idle p h hold).fresh
            obtain ⟨g', hg'⟩ := (hr.idle q h (.of_offered? _ hq)).fresh
            rw [hg] at hg'
            have hhome : p = q := congrArg Holder.home (Option.some.inj hg')
            exact of_decide_eq_false htakes hhome.symm
        | taken =>
            obtain ⟨pool₂, hpool₂, hhead⟩ := s.store.offered?_eq_some_iff.1 hq
            obtain rfl := Option.some.inj (hpool.symm.trans hpool₂)
            obtain ⟨rest, hrest⟩ := List.head?_eq_some_iff.1 hhead
            have hnodup := hr.nodup p pool hpool
            rw [hrest] at hnodup hmem
            exact (List.nodup_cons.1 hnodup).1 hmem
        | cleared => cases hmem
  | _ => rfl

/-! ## What a step does to a session at rest -/

theorem Cut.of_same (hcut : s.Cut h) (hstore : s'.store = s.store)
    (hweaks : s'.registers.weaks = s.registers.weaks) : s'.Cut h := by
  intro w hw hwh
  rw [hstore] at hw ⊢
  rw [Keeps, hweaks] at hw
  exact hcut w hw hwh

/-- A holder at rest stays so in a session with the same store and registers if new work in it is
for no holder. -/
theorem AtRest.of_work (hr : s.AtRest p h) (hstore : s'.store = s.store)
    (hhandles : s'.registers.handles = s.registers.handles)
    (hweaks : s'.registers.weaks = s.registers.weaks)
    (hwork : ∀ j, ∀ f ∈ s'.work j, f ∈ s.work j ∨ f.holder? = none) : s'.AtRest p h := by
  refine ⟨⟨?_, ?_⟩, hstore ▸ hr.fresh, hr.cut.of_same hstore hweaks⟩
  · rw [Holds, hhandles]
    exact hr.unheld
  · intro j f hf hh
    rcases hwork j f hf with hf | hf
    · exact hr.workless j f hf hh
    · rw [hf] at hh
      cases hh

/-- A session with the same store and registers is rested if new work in it is for no holder. -/
theorem Rested.of_work (hr : s.Rested) (hstore : s'.store = s.store)
    (hhandles : s'.registers.handles = s.registers.handles)
    (hweaks : s'.registers.weaks = s.registers.weaks)
    (hwork : ∀ j, ∀ f ∈ s'.work j, f ∈ s.work j ∨ f.holder? = none) : s'.Rested := by
  constructor
  · intro p h hi
    rw [hstore] at hi
    exact (hr.idle p h hi).of_work hstore hhandles hweaks hwork
  · exact hstore ▸ hr.nodup
  · intro j h hg
    rcases hwork j _ hg with hg | hg
    · have hspent := hr.releasing j h hg
      exact ⟨hstore ▸ hspent.fresh, hspent.cut.of_same hstore hweaks, hstore ▸ hspent.absent⟩
    · cases hg

theorem Rested.off (hr : s.Rested) (hf : s.top? i = some f) : (s.off i).Rested :=
  hr.of_work rfl rfl rfl fun j _ hg => .inl ((work_off_suffix hf j).subset hg)

theorem giveBack_not_mem_launchFrames (t : Store) (r : Request) (h : Nat) :
    .giveBack h ∉ launchFrames t r := by
  intro hg
  rcases of_mem_launchFrames hg with hg | hg | hg <;> cases hg

/-- A holder is to be given back only after a release. -/
theorem of_giveBack_ensues {fs : List Frame} (he : Ensues s f fs) (hg : .giveBack h ∈ fs) :
    ∃ name, s.registers.handles.get? name = some h ∧ f = .command (.onHolder name .release) := by
  cases he with
  | release hn =>
      cases List.mem_singleton.1 hg
      exact ⟨_, hn, rfl⟩
  | opened call =>
      unfold openingFrames at hg
      split at hg
      · exact absurd hg (giveBack_not_mem_launchFrames _ _ _)
      all_goals simp at hg
  | claimed call item component handle listener =>
      unfold claimFrames at hg
      split at hg
      · exact absurd hg (giveBack_not_mem_launchFrames _ _ _)
      · exact absurd hg (giveBack_not_mem_launchFrames _ _ _)
      · cases hg
  | _ => simp at hg

/-- A release leaves nothing to give back but a reference. -/
theorem Spent.of_release (hr : s.Rested) (hs : s.Sound) {name : String}
    (hn : s.registers.handles.get? name = some h)
    (ht : Turn s i (.command (.onHolder name .release)) s') : s'.Spent h := by
  have hstore := ht.store
  rw [frameActs_release hn] at hstore
  have hheld : s.Holds h := ⟨name, hn⟩
  have hstale {w : WeakHandle} (hw : s.store.Issued w) (hwh : w.holder = h) : s'.store.Stale w := by
    rw [hstore]
    exact hw.stale_of_resets (a := .reset h) (decide_eq_true hwh.symm)
  constructor
  · obtain ⟨x, hx⟩ : ∃ x, s.store.holders[h]? = some x :=
      ⟨_, List.getElem?_eq_getElem (hs.handles h hheld)⟩
    refine ⟨x.home, x.generation + 1, ?_⟩
    have hreset := s.store.holders_act (.reset h) hx
    rw [Store.Act.onHolder, if_pos rfl] at hreset
    rw [hstore]
    exact hreset
  · rintro w (hw | hw) hwh
    · rcases ht.weaks w hw with hw | ⟨c, k, x, -, -, hx, rfl⟩
      · exact hstale (hs.weaks w hw) hwh
      · exact hstale (Store.issued_downgrade hx) hwh
    · rw [hstore] at hw
      rcases s.store.listens_acts hw with hw | ⟨l, -, ⟨e, c, ha, -⟩ | ⟨call, item, c, w, ha⟩⟩
      · exact hstale (hs.listeners w hw) hwh
      · simp at ha
      · simp at ha
  · intro p hi
    rw [hstore] at hi
    rcases s.store.idles_acts hi with hi | ha | ⟨pool, ha, -⟩
    · exact (hr.idle p h hi).unheld hheld
    · simp at ha
    · simp at ha

/-- While nothing is given back, idle holders stay at rest. -/
theorem Rested.turn (hr : s.Rested) (hs : s.Sound) (hf : f.Sound s.store)
    (hidle : ∀ p h, s.store.Idles p h → f.holder? ≠ some h)
    (hgive : ∀ j h, .giveBack h ∉ s.work j) (hnot : f.isGiveBack = false) (ht : Turn s i f s') :
    s'.Rested := by
  have hkept (h : Nat) : .giveBack h false ∉ s.frameActs i f := by
    intro ha
    obtain ⟨rfl, -⟩ := licensed ha
    cases hnot
  constructor
  · intro p h hi'
    have hi := hi'
    rw [ht.store] at hi
    rcases s.store.idles_acts hi with hi | ha | ⟨pool, ha, hh⟩
    · exact (hr.idle p h hi).turn (fun hh => absurd hh (hidle p h hi)) hf
        (fun a ha => not_acquired hr hi ht hi' ha) ht
    · exact absurd ha (hkept h)
    · have hempty : pool.idle = [] := licensed ha
      rw [hempty] at hh
      cases hh
  · intro p pool hp
    rw [ht.store] at hp
    rcases s.store.idle_suffix_acts hkept (fun pool ha => licensed ha) hp with
      hnil | ⟨pool₀, hpool₀, hsuf⟩
    · rw [hnil]
      exact List.nodup_nil
    · exact (hr.nodup p pool₀ hpool₀).sublist hsuf.sublist
  · intro j h hg
    rcases ht.mem_work hg with hg | hg | ⟨-, fs, hfs, hg, -⟩
    · exact absurd hg (hgive j h)
    · cases hg
    · obtain ⟨name, hn, rfl⟩ := of_giveBack_ensues hfs hg
      exact .of_release hr hs hn ht

/-! ### Giving back -/

theorem frameActs_giveBack (k : Nat) :
    s.frameActs i (.giveBack k) = [.giveBack k (s.isAlive k)] := rfl

theorem holders_turn_giveBack {k : Nat} (ht : Turn s i (.giveBack k) s') :
    s'.store.holders = s.store.holders := by
  rw [ht.store, frameActs_giveBack]
  exact s.store.holders_giveBack k _

/-- A holder that is idle after a step that gives one back was idle before, or nobody refers to it
any more. -/
theorem idles_turn_giveBack {k : Nat} (hi : s'.store.Idles p h) (ht : Turn s i (.giveBack k) s') :
    s.store.Idles p h ∨
      (h = k ∧ s.Unreferred h ∧ ∃ x, s.store.holders[h]? = some x ∧ x.home = p) := by
  obtain ⟨pool', hpool', hmem⟩ := hi
  rw [ht.store, frameActs_giveBack, Store.acts_cons, Store.acts_nil] at hpool'
  rcases s.store.restocked_act hpool' with heq | ⟨pool, hpool, hidle⟩
  · cases heq
  · generalize pool'.idle = idle at hidle hmem
    generalize halive : s.isAlive k = referred at hidle
    cases hidle with
    | kept ha => exact .inl ⟨pool, hpool, hmem⟩
    | cleared => cases hmem
    | offered hx hp =>
        rcases List.mem_cons.1 hmem with rfl | hmem
        · exact .inr ⟨rfl, unreferred_of_isAlive halive, _, hx, hp⟩
        · exact .inl ⟨pool, hpool, hmem⟩

theorem Rested.turn_giveBack {k : Nat} (hr : s.Rested) (hspent : s.Spent k)
    (ht : Turn s i (.giveBack k) s') : s'.Rested := by
  have hholders := holders_turn_giveBack ht
  have hlt : (Frame.giveBack k).Sound s.store := by
    obtain ⟨p, g, hg⟩ := hspent.fresh
    exact lt_of_getElem? hg
  have hcut {h : Nat} (hc : s.Cut h) : s'.Cut h :=
    hc.turn (fun hh => Bool.noConfusion hh) (fun _ => rfl) hlt ht
  constructor
  · intro p h hi
    rcases idles_turn_giveBack hi ht with hi | ⟨rfl, hu, x, hx, rfl⟩
    · exact (hr.idle p h hi).turn (fun _ => rfl) hlt (fun a ha => by
        obtain rfl := List.mem_singleton.1 ha
        rfl) ht
    · obtain ⟨p, g, hg⟩ := hspent.fresh
      obtain rfl := Option.some.inj (hg.symm.trans hx)
      exact AtRest.turn ⟨hu, ⟨g, hg⟩, hspent.cut⟩ (fun _ => rfl) hlt (fun a ha => by
        obtain rfl := List.mem_singleton.1 ha
        rfl) ht
  · intro p pool' hpool'
    rw [ht.store, frameActs_giveBack, Store.acts_cons, Store.acts_nil] at hpool'
    rcases s.store.restocked_act hpool' with heq | ⟨pool, hpool, hidle⟩
    · cases heq
    · have hnodup := hr.nodup p pool hpool
      generalize pool'.idle = idle at hidle ⊢
      generalize s.isAlive k = referred at hidle
      cases hidle with
      | kept ha => exact hnodup
      | cleared => exact List.nodup_nil
      | offered hx hp =>
          exact List.nodup_cons.2 ⟨fun hmem => hspent.absent p ⟨pool, hpool, hmem⟩, hnodup⟩
  · intro j h hg
    have hg : .giveBack h ∈ s.work j := by
      rcases ht.mem_work hg with hg | hg | ⟨-, fs, hfs, hg, -⟩
      · exact hg
      · cases hg
      · obtain ⟨name, -, hf⟩ := of_giveBack_ensues hfs hg
        cases hf
    have hold := hr.releasing j h hg
    refine ⟨hholders ▸ hold.fresh, hcut hold.cut, fun p hi => ?_⟩
    rcases idles_turn_giveBack hi ht with hi | ⟨rfl, hu, -⟩
    · exact hold.absent p hi
    · exact hu.workless j _ hg rfl

/-! ## Runs -/

theorem Rested.next? {m : Moment} (hr : s.Rested) (hs : s.Sound) (hm : s.interrupts m = false)
    (h : s.next? m = some s') : s'.Rested := by
  cases happens_of_next? h with
  | give c hi =>
      refine hr.of_work rfl rfl rfl fun j f hf => ?_
      rcases mem_work_push hf with hf | hf
      · simp only [List.mem_cons, List.not_mem_nil, or_false] at hf
        rcases hf with rfl | rfl <;> exact .inr rfl
      · exact .inl hf
  | @carry i f _ hf ht =>
      have hoff := hr.off hf
      cases hgive : f.isGiveBack with
      | true =>
          cases f with
          | giveBack k =>
              have hspent := hr.releasing i k (mem_work_of_top? hf rfl)
              exact hoff.turn_giveBack ⟨hspent.fresh, hspent.cut, hspent.absent⟩ ht
          | _ => cases hgive
      | false =>
          refine hoff.turn (hs.off hf) (hs.top hf) ?_ ?_ hgive ht
          · intro p h hi hh
            exact (hr.idle p h hi).workless i f (mem_work_of_top? hf (f.isServe_of_holder? hh)) hh
          · intro j h hg
            have hmem := (work_off_suffix hf j).subset hg
            rw [isGiveBack_of_not_interrupts hm hf (isReleasing_iff.2 ⟨j, h, hmem⟩)] at hgive
            cases hgive
  | look k =>
      have hl := s.like_view? k
      exact hr.of_work hl.store hl.handles hl.weaks fun j f hf => .inl (hl.work j ▸ hf)

theorem rested_ofProgram (p : Program) : (ofProgram p).Rested := by
  constructor
  · rintro q h ⟨pool, hp, hh⟩
    cases q with
    | zero =>
        obtain rfl := Option.some.inj hp
        cases hh
    | succ q => cases hp
  · intro q pool hp
    cases q with
    | zero =>
        obtain rfl := Option.some.inj hp
        exact List.nodup_nil
    | succ q => cases hp
  · intro j h hg
    rw [work_ofProgram] at hg
    cases hg

theorem Orderly.rested (h : s.Orderly) : s.Rested := by
  obtain ⟨p, ms, hu, hms⟩ := h
  exact (unbroken_induction (P := fun s => s.Sound ∧ s.Rested)
    (fun _ _ _ hm h hs => ⟨hs.1.next? h, hs.2.next? hs.1 hm h⟩) hu hms
    ⟨sound_ofProgram p, rested_ofProgram p⟩).2

end Session

end Recycler

import Recycler.Proofs.Store.Act

/-!
# Trees

What an act does to the trees that were built before, and which trees it builds. A new tree takes
the next index of its engine, so it was never in use before. Hence no tree is in use by two holders
(`Owned`), and a tree that its holder gave up is never in use again (`Retired`).
-/

namespace Recycler.Store

variable (s : Store)

/-- The tree that a holder has in use. -/
def live? (h : Nat) : Option TreeRef := s.holders[h]?.bind (·.state.slot.tree?)

def Built (t : TreeRef) : Prop := (s.tree? t).isSome

/-- A tree that a holder does not have in use and will not. -/
def Parted (h : Nat) (t : TreeRef) : Prop := s.Built t ∧ s.live? h ≠ some t

/-- A tree that nobody has in use and nobody will. -/
def Retired (t : TreeRef) : Prop := ∀ h, s.Parted h t

/-- The trees in use were built, each for its own holder. -/
structure Owned : Prop where
  built : ∀ h t, s.live? h = some t → s.Built t
  unique : ∀ h k t, s.live? h = some t → s.live? k = some t → h = k

/-- What an act makes of a tree. -/
def Act.onTree (s : Store) (t : TreeRef) (x : Tree) : Act → Tree
  | .evict h => if s.live? h = some t then x.release else x
  | .reset h => if s.live? h = some t then x.release else x
  | .setReadyListener h l => if s.live? h = some t then x.setReadyListener l else x
  | .reportWindow h position w => if s.live? h = some t then x.reportWindow position w else x
  | .settleLayout l size => if l.tree = t then x.commit l.root l.bounds l.props size else x
  | .changeTree u c => if u = t then x.change c else x
  | _ => x

/-- Whether an act takes its tree from a holder. -/
def Act.vacates (h : Nat) : Act → Bool
  | .evict k => k = h
  | .reset k => k = h
  | _ => false

theorem live?_eq {h : Nat} {x : Holder} (hx : s.holders[h]? = some x) :
    s.live? h = x.state.slot.tree? := by
  rw [live?, hx, Option.bind_some]

theorem exists_of_live? {h : Nat} {t : TreeRef} (ht : s.live? h = some t) :
    ∃ x, s.holders[h]? = some x ∧ x.state.slot.tree? = some t :=
  Option.bind_eq_some_iff.1 ht

/-! ## Looking trees up -/

theorem tree?_congr {s s' : Store} (h : s'.engines = s.engines) (t : TreeRef) :
    s'.tree? t = s.tree? t := by
  rw [tree?, tree?, h]

theorem tree?_modifyTree (t u : TreeRef) (f : Tree → Tree) :
    (s.modifyTree u f).tree? t = (s.tree? t).map fun x => if u = t then f x else x := by
  unfold tree? modifyTree modifyEngine Engine.modifyTree
  rw [List.getElem?_modify]
  cases s.engines[t.engine]? with
  | none => rfl
  | some e =>
      by_cases hi : u.index = t.index
      · by_cases he : u.engine = t.engine
        · have hut : u = t := by cases u; cases t; simp_all
          subst hut
          cases e.trees[u.index]? <;> simp_all
        · have hut : u ≠ t := fun h => he (h ▸ rfl)
          simp [he, hut]
      · have hut : u ≠ t := fun h => hi (h ▸ rfl)
        split
        · simp [hi]
        · simp

theorem tree?_modifyEngine (t : TreeRef) (e : Nat) {f : Engine → Engine}
    (hf : ∀ x, (f x).trees = x.trees) : (s.modifyEngine e f).tree? t = s.tree? t := by
  unfold tree? modifyEngine
  rw [List.getElem?_modify]
  cases s.engines[t.engine]? with
  | none => rfl
  | some x =>
      split
      · simp [hf]
      · simp

theorem tree?_build (t : TreeRef) (e : Nat) (c : Tree.Config) :
    (s.modifyEngine e (·.build c)).tree? t =
      (s.tree? t).or
        (if t.engine = e ∧ s.engines[e]?.any (·.trees.length = t.index) then some (.ofConfig c)
        else none) := by
  unfold tree? modifyEngine Engine.build
  rw [List.getElem?_modify]
  by_cases he : e = t.engine
  · subst he
    cases s.engines[t.engine]? with
    | none => simp
    | some x => grind
  · have hte : t.engine ≠ e := Ne.symm he
    simp [he, hte]

/-- The next tree of an engine was not built yet. -/
theorem not_built_next {e : Nat} {x : Engine} (he : s.engines[e]? = some x) :
    ¬ s.Built ⟨e, x.trees.length⟩ := by
  simp [Built, tree?, he]

/-! ## The tree in use -/

/-- Changes the tree that a holder has in use. -/
def modifyLive (h : Nat) (f : Tree → Tree) : Store :=
  match s.live? h with
  | some t => s.modifyTree t f
  | none => s

theorem tree?_modifyLive (t : TreeRef) (h : Nat) (f : Tree → Tree) :
    (s.modifyLive h f).tree? t =
      (s.tree? t).map fun x => if s.live? h = some t then f x else x := by
  unfold modifyLive
  cases s.live? h with
  | none => simp
  | some u => simp [tree?_modifyTree]

/-- A change of a tree that is not there changes nothing. -/
theorem modifyTree_of_not_built {t : TreeRef} (f : Tree → Tree) (ht : ¬ s.Built t) :
    s.modifyTree t f = s := by
  have hnone : s.engines[t.engine]?.bind (·.trees[t.index]?) = none :=
    Option.not_isSome_iff_eq_none.1 ht
  have hengines : s.engines.modify t.engine (·.modifyTree t.index f) = s.engines := by
    refine List.ext_getElem? fun e => ?_
    rw [List.getElem?_modify]
    split
    · next he =>
        subst he
        cases hx : s.engines[t.engine]? with
        | none => rfl
        | some x =>
            rw [hx, Option.bind_some, List.getElem?_eq_none_iff] at hnone
            rw [Option.map_eq_map, Option.map_some, Engine.modifyTree, List.modify_eq_self hnone]
    · simp
  rw [modifyTree, modifyEngine, hengines]

theorem engines_evict (h : Nat) : (s.evict h).engines = (s.modifyLive h Tree.release).engines := by
  have hlive : (s.holders[h]?.bind fun holder => holder.state.slot.tree?) = s.live? h := rfl
  unfold evict modifyLive
  rw [hlive]
  cases s.live? h with
  | none => rfl
  | some t =>
      dsimp only
      split
      · rfl
      · next hnone =>
          rw [s.modifyTree_of_not_built]
          · rfl
          · intro hbuilt
            obtain ⟨tree, htree⟩ := Option.isSome_iff_exists.1 hbuilt
            obtain ⟨e, he, -⟩ := Option.bind_eq_some_iff.1 htree
            exact hnone e tree he htree

theorem engines_reset (h : Nat) : (s.reset h).engines = (s.modifyLive h Tree.release).engines := rfl

theorem engines_setReadyListener (h : Nat) (l : Option ReadyListener) :
    (s.setReadyListener h l).engines = (s.modifyLive h (·.setReadyListener l)).engines := rfl

/-! ## Trees that are there -/

theorem tree?_claimTree {t : TreeRef} {x : Tree} (call : Call) (item : Shared Descriptor)
    (component : Component) (handle : WeakHandle) (listener : Option MeasureListener)
    (hx : s.tree? t = some x) :
    (s.claimTree call item component handle listener).1.tree? t = some x := by
  unfold claimTree
  split
  · next holder engine hh he =>
      have hnew : (⟨call.engine, engine.trees.length⟩ : TreeRef) ≠ t := by
        rintro rfl
        exact s.not_built_next he (by simp [Built, hx])
      split
      · split
        · exact hx
        · split
          · refine Eq.trans (tree?_modifyEngine _ _ _ ?_) hx
            intro e
            rfl
          · have hbuild : ((s.modifyState call.holder (·.takeParked)).modifyEngine call.engine
                (·.build (treeConfig holder.state item component listener))).tree? t = some x := by
              rw [tree?_build, tree?_congr (engines_modifyState ..), hx]
              rfl
            dsimp only
            split
            · rw [tree?_congr (engines_modifyState ..), tree?_modifyTree, hbuild, Option.map_some,
                if_neg hnew]
            · rw [tree?_congr (engines_modifyState ..), hbuild]
      · exact hx
  · exact hx

theorem tree?_enterLayout (u t : TreeRef) : (s.enterLayout u).1.tree? t = s.tree? t := by
  unfold enterLayout
  split
  · split
    · rfl
    · split
      · apply tree?_modifyEngine
        intro e
        rfl
      · split <;> rfl
  · rfl

theorem tree?_settleLayout (l : Layout) (size : Size) (t : TreeRef) :
    (s.settleLayout l size).tree? t =
      (s.tree? t).map fun x => if l.tree = t then x.commit l.root l.bounds l.props size else x := by
  rw [settleLayout, tree?_modifyEngine, tree?_modifyTree]
  intro e
  rfl

theorem tree?_addEngine (t : TreeRef) (name : String) (measure : Measure)
    (manner : Engine.Manner) :
    (s.act (.addEngine name measure manner)).tree? t = s.tree? t := by
  simp only [act, tree?]
  rw [List.getElem?_append]
  split
  · rfl
  · next h =>
      rw [List.getElem?_eq_none (Nat.not_lt.1 h), Option.bind_none]
      cases t.engine - s.engines.length <;> simp

theorem engines_openRequest (call : Call) : (s.openRequest call).1.engines = s.engines := by
  rw [fst_openRequest]
  split <;> rfl

theorem engines_giveBack (h : Nat) (referred : Bool) :
    (s.giveBack h referred).1.engines = s.engines := by
  unfold giveBack
  split
  · rfl
  · split
    · rfl
    · split <;> rfl

theorem engines_acquire (p : Nat) (item : Shared Descriptor) (policy : Policy)
    (factory : Option Factory) : (s.act (.acquire p item policy factory)).engines = s.engines := by
  rw [act, configure, engines_modifyState]
  cases hp : s.offered? p with
  | none => rw [s.takeHolder_of_not_offered? hp]; rfl
  | some h => rw [s.takeHolder_of_offered? hp]; rfl

theorem engines_commitLayout (r : Request) (size : Size) :
    (s.commitLayout r size).engines = s.engines := by
  unfold commitLayout
  split <;> rfl

theorem engines_confirmLayout (r : Request) : (s.confirmLayout r).engines = s.engines := by
  unfold confirmLayout
  split <;> rfl

theorem engines_writeHeight (w : WeakHandle) (height : Int32) :
    (s.writeHeight w height).engines = s.engines := by
  unfold writeHeight
  split <;> rfl

theorem engines_dequeue (q : Nat) : (s.dequeue q).1.engines = s.engines := by
  unfold dequeue
  split <;> rfl

/-- Whether an act may build a tree. -/
def Act.builds : Act → Bool
  | .build .. | .claimTree .. => true
  | _ => false

/-- What an act makes of the trees if it builds none. -/
theorem tree?_act_of_not_builds {a : Act} (ha : a.builds = false) (t : TreeRef) :
    (s.act a).tree? t = (s.tree? t).map (a.onTree s t) := by
  have hkept (h : (s.act a).engines = s.engines) (hidle : ∀ x, a.onTree s t x = x) :
      (s.act a).tree? t = (s.tree? t).map (a.onTree s t) := by
    rw [tree?_congr h, show a.onTree s t = id from funext hidle, Option.map_id]
    rfl
  cases a with
  | evict h => exact (tree?_congr (s.engines_evict h) t).trans (s.tree?_modifyLive t h _)
  | reset h => exact (tree?_congr (s.engines_reset h) t).trans (s.tree?_modifyLive t h _)
  | setReadyListener h l =>
      exact (tree?_congr (s.engines_setReadyListener h l) t).trans (s.tree?_modifyLive t h _)
  | reportWindow h position w => exact s.tree?_modifyLive t h _
  | settleLayout l size => exact s.tree?_settleLayout l size t
  | changeTree u c => exact s.tree?_modifyTree t u _
  | acquire p item policy factory =>
      exact hkept (s.engines_acquire p item policy factory) fun _ => rfl
  | giveBack h referred => exact hkept (s.engines_giveBack h referred) fun _ => rfl
  | openRequest call => exact hkept (s.engines_openRequest call) fun _ => rfl
  | commitLayout r size => exact hkept (s.engines_commitLayout r size) fun _ => rfl
  | confirmLayout r => exact hkept (s.engines_confirmLayout r) fun _ => rfl
  | writeHeight w height => exact hkept (s.engines_writeHeight w height) fun _ => rfl
  | dequeue q => exact hkept (s.engines_dequeue q) fun _ => rfl
  | enterLayout u => exact (s.tree?_enterLayout u t).trans Option.map_id'.symm
  | changeEngine e c =>
      refine (s.tree?_modifyEngine t e fun y => ?_).trans Option.map_id'.symm
      cases c <;> rfl
  | addEngine name measure manner =>
      exact (s.tree?_addEngine t name measure manner).trans Option.map_id'.symm
  | build | claimTree => cases ha
  | _ => exact hkept rfl fun _ => rfl

/-- What an act makes of the trees that are there. -/
theorem tree?_act (a : Act) {t : TreeRef} {x : Tree} (hx : s.tree? t = some x) :
    (s.act a).tree? t = some (a.onTree s t x) := by
  cases ha : a.builds with
  | false => rw [s.tree?_act_of_not_builds ha, hx, Option.map_some]
  | true =>
      cases a with
      | build e c => rw [act, tree?_build, hx]; rfl
      | claimTree call item component handle listener =>
          exact s.tree?_claimTree call item component handle listener hx
      | _ => cases ha

theorem built_iff {t : TreeRef} : s.Built t ↔ ∃ x, s.tree? t = some x := Option.isSome_iff_exists

theorem Built.act {t : TreeRef} (h : s.Built t) (a : Act) : (s.act a).Built t := by
  obtain ⟨x, hx⟩ := s.built_iff.1 h
  exact (s.act a).built_iff.2 ⟨_, s.tree?_act a hx⟩

/-- A tree keeps the configuration that it was built from. -/
theorem config_onTree (a : Act) (t : TreeRef) (x : Tree) : (a.onTree s t x).config = x.config := by
  cases a with
  | changeTree u c =>
      rw [Act.onTree]
      split
      · cases c <;> rfl
      · rfl
  | _ =>
      simp only [Act.onTree]
      try (split <;> rfl)

theorem config_acts {s : Store} {t : TreeRef} {x : Tree} (hx : s.tree? t = some x) (as : List Act) :
    ∃ y, (s.acts as).tree? t = some y ∧ y.config = x.config := by
  refine acts_induction (P := fun s => ∃ y, s.tree? t = some y ∧ y.config = x.config) ?_
    ⟨x, hx, rfl⟩ as
  rintro s a ⟨y, hy, hconfig⟩
  exact ⟨_, s.tree?_act a hy, (s.config_onTree a t y).trans hconfig⟩

/-! ## New trees -/

/-- A claim that is met builds the next tree of the engine. -/
theorem tree?_claimTree_of_vacant {x : Holder} {engine : Engine} {call : Call}
    {handle : WeakHandle} (item : Shared Descriptor) (component : Component)
    (listener : Option MeasureListener) (hx : s.holders[call.holder]? = some x)
    (he : s.engines[call.engine]? = some engine) (hg : x.generation = handle.generation)
    (ht : x.state.slot.tree? = none) (t : TreeRef) :
    (s.claimTree call item component handle listener).1.tree? t =
      (s.tree? t).or
        (if engine.refuses = false ∧ t = ⟨call.engine, engine.trees.length⟩ then
          some { Tree.ofConfig (treeConfig x.state item component listener) with
            readyListener := x.state.readyListener }
        else none) := by
  have hbuild := (s.modifyState call.holder (·.takeParked)).tree?_build t call.engine
    (treeConfig x.state item component listener)
  have hnext : (t.engine = call.engine ∧ engine.trees.length = t.index) ↔
      t = ⟨call.engine, engine.trees.length⟩ := by
    cases t
    simp [eq_comm]
  rw [tree?_congr (engines_modifyState ..), engines_modifyState, he] at hbuild
  simp only [Option.any_some, decide_eq_true_eq, hnext] at hbuild
  unfold claimTree
  simp only [hx, he, ht, if_pos hg]
  split
  · next hr =>
      rw [tree?_modifyEngine]
      · simp [hr, tree?_congr (engines_modifyState ..)]
      · intro e
        rfl
  · next hr =>
      have hlook := s.not_built_next he
      simp only [Built, Bool.not_eq_true, Option.isSome_eq_false_iff, Option.isNone_iff_eq_none]
        at hlook
      rw [Bool.not_eq_true] at hr
      cases hl : x.state.readyListener with
      | none => simp [tree?_congr (engines_modifyState ..), hbuild, hr, Tree.ofConfig]
      | some l =>
          rw [tree?_congr (engines_modifyState ..), tree?_modifyTree, hbuild]
          by_cases hnew : t = ⟨call.engine, engine.trees.length⟩
          · subst hnew
            simp [hlook, hr, Tree.setReadyListener]
          · simp [hnew, Ne.symm hnew]

/-- An act that builds a tree is a build, or a claim of a holder that has none. -/
theorem of_tree?_act {a : Act} {t : TreeRef} {y : Tree} (hn : s.tree? t = none)
    (hy : (s.act a).tree? t = some y) :
    (∃ e c, a = .build e c ∧ y = .ofConfig c) ∨
      ∃ call item component handle listener, a = .claimTree call item component handle listener ∧
        y.config.listener = listener := by
  cases ha : a.builds with
  | false =>
      rw [s.tree?_act_of_not_builds ha, hn] at hy
      cases hy
  | true =>
      cases a with
      | build e c =>
          rw [act, tree?_build, hn, Option.none_or] at hy
          split at hy
          · exact .inl ⟨e, c, rfl, (Option.some.inj hy).symm⟩
          · cases hy
      | claimTree call item component handle listener =>
          refine .inr ⟨call, item, component, handle, listener, rfl, ?_⟩
          by_cases h : ∃ x engine, s.holders[call.holder]? = some x ∧
              s.engines[call.engine]? = some engine ∧ x.generation = handle.generation ∧
              x.state.slot.tree? = none
          · obtain ⟨x, engine, hx, he, hg, ht⟩ := h
            rw [act, s.tree?_claimTree_of_vacant item component listener hx he hg ht, hn,
              Option.none_or] at hy
            split at hy
            · rw [← Option.some.inj hy]
              rfl
            · cases hy
          · rw [act, s.claimTree_of_not_vacant item component listener
              fun x engine hx he hg ht => h ⟨x, engine, hx, he, hg, ht⟩, hn] at hy
            cases hy
      | _ => cases ha

/-! ## Trees in use -/

/-- A tree in use stays in use until the holder is evicted or released. -/
theorem live?_act_of_live {h : Nat} {t : TreeRef} (a : Act) (hl : s.live? h = some t) :
    (s.act a).live? h = if a.vacates h then none else some t := by
  obtain ⟨x, hx, ht⟩ := s.exists_of_live? hl
  rw [(s.act a).live?_eq (s.holders_act a hx)]
  cases a with
  | change k c =>
      simp only [Act.onHolder, Act.vacates]
      split
      · exact (x.state.tree?_change c).trans ht
      · exact ht
  | evict k =>
      simp only [Act.onHolder, Act.vacates, decide_eq_true_eq]
      split
      · simp only [evicted, ht]
        split
        · split <;> rfl
        · rfl
      · exact ht
  | reset k =>
      simp only [Act.onHolder, Act.vacates, decide_eq_true_eq]
      split
      · rfl
      · exact ht
  | claimTree call item component handle listener => simp [Act.onHolder, Act.vacates, ht]
  | _ =>
      simp only [Act.onHolder, Act.vacates]
      try split
      all_goals exact ht

/-- A holder without a tree gets none by an act that builds none. -/
theorem tree?_onHolder_of_not_builds {h : Nat} {x : Holder} {a : Act} (ha : a.builds = false)
    (ht : x.state.slot.tree? = none) : (a.onHolder s h x).state.slot.tree? = none := by
  cases a with
  | claimTree => cases ha
  | change k c =>
      rw [Act.onHolder]
      split
      · exact (x.state.tree?_change c).trans ht
      · exact ht
  | evict k =>
      rw [Act.onHolder]
      split
      · simp only [evicted, ht]
        exact ht
      · exact ht
  | reset k =>
      rw [Act.onHolder]
      split
      · rfl
      · exact ht
  | _ =>
      simp only [Act.onHolder]
      try split
      all_goals exact ht

/-- A holder without a tree gets one only by a claim, and then a new one. -/
theorem live?_act_of_vacant {h : Nat} {t : TreeRef} {a : Act} (hl : s.live? h = none)
    (ht : (s.act a).live? h = some t) :
    ¬ s.Built t ∧ (s.act a).Built t ∧
      ∃ call item component handle listener, a = .claimTree call item component handle listener ∧
        call.holder = h := by
  obtain ⟨y, hy, hyt⟩ := (s.act a).exists_of_live? ht
  cases hx : s.holders[h]? with
  | none =>
      obtain ⟨p, item, policy, factory, -, -, -, rfl⟩ := s.of_getElem?_act hx hy
      cases hyt
  | some x =>
      rw [s.live?_eq hx] at hl
      obtain rfl : a.onHolder s h x = y := Option.some.inj ((s.holders_act a hx).symm.trans hy)
      cases a with
      | claimTree call item component handle listener =>
          simp only [Act.onHolder] at hyt
          split at hyt
          · next hc =>
              obtain ⟨rfl, hg, -⟩ := hc
              simp only [supplied] at hyt
              split at hyt
              · rw [hl] at hyt
                cases hyt
              · next engine he =>
                  split at hyt
                  · cases hyt
                  · next hr =>
                      obtain rfl : ⟨call.engine, engine.trees.length⟩ = t := Option.some.inj hyt
                      have hnew := s.not_built_next he
                      refine ⟨hnew, ?_, call, item, component, handle, listener, rfl, rfl⟩
                      have hbuilt :=
                        s.tree?_claimTree_of_vacant item component listener hx he hg hl
                      rw [Built, act, hbuilt]
                      simp [hr]
          · rw [hl] at hyt
            cases hyt
      | build e c => exact absurd (hl.symm.trans hyt) (by simp)
      | _ =>
          rw [s.tree?_onHolder_of_not_builds rfl hl] at hyt
          cases hyt

/-- A tree in use after an act was in use before and stays so, or it is a new one. -/
theorem live?_of_act {h : Nat} {t : TreeRef} {a : Act} (ht : (s.act a).live? h = some t) :
    (s.live? h = some t ∧ a.vacates h = false) ∨ s.live? h = none ∧ ¬ s.Built t := by
  cases hl : s.live? h with
  | none => exact .inr ⟨rfl, (s.live?_act_of_vacant hl ht).1⟩
  | some u =>
      rw [s.live?_act_of_live a hl] at ht
      split at ht
      · cases ht
      · next hv => exact .inl ⟨ht, Bool.eq_false_iff.2 hv⟩

theorem Owned.act {s : Store} (ho : s.Owned) (a : Act) : (s.act a).Owned := by
  constructor
  · intro h t ht
    rcases s.live?_of_act ht with ⟨hl, -⟩ | ⟨hl, -⟩
    · exact (ho.built h t hl).act s a
    · exact (s.live?_act_of_vacant hl ht).2.1
  · intro h k t hh hk
    rcases s.live?_of_act hh with ⟨hh', -⟩ | ⟨hh', hnew⟩ <;>
      rcases s.live?_of_act hk with ⟨hk', -⟩ | ⟨hk', hnew'⟩
    · exact ho.unique h k t hh' hk'
    · exact absurd (ho.built h t hh') hnew'
    · exact absurd (ho.built k t hk') hnew
    · -- both got the tree by this act, which is a claim of one holder
      obtain ⟨-, -, call, _, _, _, _, ha, rfl⟩ := s.live?_act_of_vacant hh' hh
      obtain ⟨-, -, call', _, _, _, _, ha', rfl⟩ := s.live?_act_of_vacant hk' hk
      rw [ha] at ha'
      cases ha'
      rfl

theorem Parted.act {s : Store} {h : Nat} {t : TreeRef} (hp : s.Parted h t) (a : Act) :
    (s.act a).Parted h t := by
  refine ⟨hp.1.act s a, fun ht => ?_⟩
  rcases s.live?_of_act ht with ⟨hl, -⟩ | ⟨-, hnew⟩
  · exact hp.2 hl
  · exact hnew hp.1

theorem Retired.act {s : Store} {t : TreeRef} (hr : s.Retired t) (a : Act) :
    (s.act a).Retired t := fun h => (hr h).act a

theorem live?_reset (h : Nat) : (s.reset h).live? h = none := by
  cases hx : s.holders[h]? with
  | none =>
      have hnone : (s.act (.reset h)).holders[h]? = none :=
        s.getElem?_act_of_none (fun p item policy factory => Act.noConfusion) hx
      rw [live?, ← act, hnone]
      rfl
  | some x =>
      rw [(s.reset h).live?_eq (s.getElem?_reset h hx), if_pos rfl]
      rfl

/-- The tree that is taken from its holder is never in use again. -/
theorem Owned.retired {s : Store} {h : Nat} {t : TreeRef} (ho : s.Owned)
    (hl : s.live? h = some t) {a : Act} (ha : a.vacates h) : (s.act a).Retired t := by
  refine fun k => ⟨(ho.built h t hl).act s a, fun hk => ?_⟩
  rcases s.live?_of_act hk with ⟨hlk, hv⟩ | ⟨-, hnew⟩
  · rw [← ho.unique h k t hl hlk, ha] at hv
    cases hv
  · exact hnew (ho.built h t hl)

end Recycler.Store

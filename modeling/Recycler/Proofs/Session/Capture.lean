import Recycler.Proofs.Session.Tracking
import Recycler.Proofs.Session.Window
import Recycler.Proofs.Store.Valid

/-!
# What a tree is built for

A request reads the descriptor of its holder in its first step and builds the tree in its second
one. The factory of the measure listener is called in between, and may do anything with the holder;
so may other threads. The second step makes sure that the holder was not released, and nothing else.

So the root of a new tree and its clipping come from the descriptor of the first step, and
everything else from the holder as it is at the second one (`config_of_run`).
-/

namespace Recycler.Session

/-- A request on thread `j` has come from its first step, in the session `u` with the holder `x`, to
its second one, with the run `ns` after the first. -/
structure Opened (o : Session) (ms : List Moment) (j : Nat) (call : Call)
    (item : Shared Descriptor) (handle : WeakHandle) (listener : Option MeasureListener)
    (u : Session) (x : Holder) (ns : List Moment) : Prop where
  run : ∃ ks, ms = ks ++ .carry j :: ns ∧ o.follow? ks = some u
  opened : u.top? j = some (.openRequest call)
  pending : ∀ ls v, ls <+: ns → u.follow? (.carry j :: ls) = some v →
    ∃ component, .claimTree call item component handle listener ∈ v.work j
  holder : u.store.holders[call.holder]? = some x
  item : x.state.item = some item
  /-- The factory that the holder had then makes the listener. -/
  listener : listener = x.state.factory.map (⟨·, some handle⟩)
  handle : handle = x.downgrade call.holder

variable {o s s' u : Session} {ms ns : List Moment} {m : Moment} {i j : Nat} {f : Frame}
  {call : Call} {item : Shared Descriptor} {component : Component} {handle : WeakHandle}
  {listener : Option MeasureListener} {x y : Holder} {config : Tree.Config} {p : Program}

theorem Opened.follow? (ho : Opened o ms j call item handle listener u x ns)
    (hrun : o.follow? ms = some s) : u.follow? (.carry j :: ns) = some s := by
  obtain ⟨ks, rfl, hks⟩ := ho.run
  rwa [follow?_append, hks, Option.bind_some] at hrun

theorem Opened.concat (ho : Opened o ms j call item handle listener u x ns)
    (hrun : o.follow? ms = some s) (h : s.next? m = some s')
    (hmem : .claimTree call item component handle listener ∈ s'.work j) :
    Opened o (ms ++ [m]) j call item handle listener u x (ns ++ [m]) where
  run := by
    obtain ⟨ks, rfl, hks⟩ := ho.run
    exact ⟨ks, by rw [List.append_assoc, List.cons_append], hks⟩
  opened := ho.opened
  holder := ho.holder
  item := ho.item
  listener := ho.listener
  handle := ho.handle
  pending ls v hls hv := by
    rcases List.prefix_concat_iff.1 hls with rfl | hls
    · obtain rfl := Option.some.inj ((follow?_concat (ho.follow? hrun) h).symm.trans hv)
      exact ⟨component, hmem⟩
    · exact ho.pending ls v hls hv

/-- In an unbroken run no item acquires the holder of a request that is between its two steps. -/
theorem Opened.unoffered {p : Program}
    (ho : Opened (ofProgram p) ms j call item handle listener u x ns)
    (hrun : (ofProgram p).follow? ms = some s) (hu : (ofProgram p).unbroken ms) :
    u.store.Unoffered call.holder (u.runActs (.carry j :: ns)) := by
  obtain ⟨ks, hms, hks⟩ := ho.run
  obtain ⟨hbefore, hafter⟩ := (unbroken_append hks).1 (hms ▸ hu)
  have hou : u.Orderly := ⟨p, ks, hbefore, hks⟩
  refine unoffered_runActs (ho.follow? hrun) fun ls v hls hv q => ?_
  have hov := hou.of_follow?_initial hafter hls hv
  cases ls with
  | nil =>
      obtain rfl := Option.some.inj hv
      exact hou.not_idles_of_work (mem_work_of_top? ho.opened rfl) rfl
  | cons l ls =>
      obtain ⟨rfl, hpre⟩ := List.cons_prefix_cons.1 hls
      obtain ⟨component, hmem⟩ := ho.pending ls v hpre hv
      exact hov.not_idles_of_work hmem rfl

/-- A holder of the generation that the request found was not released since. -/
theorem Opened.not_resets (ho : Opened o ms j call item handle listener u x ns)
    (hrun : o.follow? ms = some s) (hy : s.store.holders[call.holder]? = some y)
    (hg : y.generation = handle.generation) :
    ∀ a ∈ u.runActs (.carry j :: ns), a.resets call.holder = false := by
  intro a ha
  rw [← Bool.not_eq_true]
  intro hreset
  obtain ⟨z, hz, hlt⟩ := stale_of_resets ho.holder ha hreset
  rw [← store_follow? (ho.follow? hrun)] at hz
  obtain rfl := Option.some.inj (hz.symm.trans hy)
  rw [hg, ho.handle] at hlt
  exact Nat.lt_irrefl _ hlt

/-- Such a holder has the constraints of this request, or of a later one. -/
theorem Opened.requested (ho : Opened o ms j call item handle listener u x ns)
    (hrun : o.follow? ms = some s) (hy : s.store.holders[call.holder]? = some y)
    (hg : y.generation = handle.generation) (hc : item.value.component? = some component) :
    y.state.requested.isSome := by
  have hresets := ho.not_resets hrun hy hg
  have hfollow := ho.follow? hrun
  obtain ⟨t, ht, -⟩ := follow?_cons_eq_some.1 hfollow
  obtain ⟨as, has⟩ : ∃ as, u.runActs (.carry j :: ns) = .openRequest call :: as := by
    rw [runActs_cons ht, momentActs_carry ho.opened]
    exact ⟨_, rfl⟩
  rw [store_follow? hfollow, has] at hy
  rw [has] at hresets
  have hstep := u.store.holders_act (.openRequest call) ho.holder
  rw [Store.Act.onHolder, if_pos ⟨rfl, by rw [ho.item, Option.bind_some, hc]; rfl⟩] at hstep
  obtain ⟨z, hz, hreq⟩ := Store.requested_acts hstep
    (fun a ha => hresets a (List.mem_cons_of_mem _ ha)) rfl
  obtain rfl := Option.some.inj (hz.symm.trans hy)
  exact hreq

/-! ## Between the two steps -/

theorem claimTree_not_mem_launchFrames (t : Store) (r : Request) :
    .claimTree call item component handle listener ∉ launchFrames t r := by
  intro hg
  rcases of_mem_launchFrames hg with hg | hg | hg <;> cases hg

/-- Only the first step of a request leads to the second one. -/
theorem of_claimTree_ensues {fs : List Frame} (he : Ensues s f fs)
    (hg : .claimTree call item component handle listener ∈ fs) :
    f = .openRequest call ∧ ∃ x, s.store.holders[call.holder]? = some x ∧
      x.state.item = some item ∧ listener = x.state.factory.map (⟨·, some handle⟩) ∧
      handle = x.downgrade call.holder := by
  cases he with
  | opened call' =>
      unfold openingFrames at hg
      split at hg
      · exact absurd hg (claimTree_not_mem_launchFrames _ _)
      · next ho =>
          cases List.mem_singleton.1 hg
          obtain ⟨-, x, hx, hitem, hfactory, hhandle⟩ :=
            of_vacant_openRequest (congrArg Prod.snd ho)
          exact ⟨rfl, x, hx, hitem, by rw [← hfactory]; rfl, hhandle⟩
      · next ho =>
          simp only [List.mem_cons, List.not_mem_nil, or_false, reduceCtorEq, false_or] at hg
          cases hg
          obtain ⟨-, x, hx, hitem, hfactory, hhandle⟩ :=
            of_vacant_openRequest (congrArg Prod.snd ho)
          exact ⟨rfl, x, hx, hitem, by rw [← hfactory]; rfl, hhandle⟩
      · cases hg
  | claimed =>
      unfold claimFrames at hg
      split at hg
      · exact absurd hg (claimTree_not_mem_launchFrames _ _)
      · exact absurd hg (claimTree_not_mem_launchFrames _ _)
      · cases hg
  | _ => simp at hg

/-- Every request that is between its two steps has come from its first one. -/
def AllOpened (o : Session) (ms : List Moment) (s : Session) : Prop :=
  ∀ j call item component handle listener,
    .claimTree call item component handle listener ∈ s.work j →
      ∃ u x ns, Opened o ms j call item handle listener u x ns

theorem AllOpened.next? (hall : AllOpened o ms s) (hrun : o.follow? ms = some s)
    (h : s.next? m = some s') : AllOpened o (ms ++ [m]) s' := by
  intro j call item component handle listener hg
  have hold (hmem : .claimTree call item component handle listener ∈ s.work j) :
      ∃ u x ns, Opened o (ms ++ [m]) j call item handle listener u x ns := by
    obtain ⟨u, x, ns, ho⟩ := hall _ _ _ _ _ _ hmem
    exact ⟨u, x, _, ho.concat hrun h hg⟩
  cases happens_of_next? h with
  | give c hi =>
      rcases mem_work_push hg with hmem | hmem
      · simp at hmem
      · exact hold hmem
  | @carry i f _ hf ht =>
      rcases ht.mem_work hg with hmem | hmem | ⟨rfl, fs, hfs, hmem, -⟩
      · exact hold ((work_off_suffix hf j).subset hmem)
      · cases hmem
      · obtain ⟨rfl, x, hx, hitem, hlistener, hhandle⟩ := of_claimTree_ensues hfs hmem
        refine ⟨s, x, [], ⟨ms, rfl, hrun⟩, hf, fun ls v hls hv => ?_, hx, hitem, hlistener, hhandle⟩
        obtain rfl := List.prefix_nil.1 hls
        obtain rfl := Option.some.inj ((follow?_singleton h).symm.trans hv)
        exact ⟨component, hg⟩
  | look k => exact hold ((s.like_view? k).work j ▸ hg)

theorem allOpened_of_run (hrun : (ofProgram p).follow? ms = some s) :
    AllOpened (ofProgram p) ms s := by
  refine follow?_history_induction (fun j call item component handle listener hg => ?_)
    (fun ks t m t' hks hm hall => hall.next? hks hm) hrun
  rw [work_ofProgram] at hg
  cases hg

/-! ## Building -/

/-- Whenever an engine is asked for a tree of a holder, the request has read a descriptor with a
component in its first step, from which the root and the clipping are taken. The holder was not
released since then. It has that descriptor still unless it was given another one in the meantime,
be it by an item that acquired it, and then it has the one that was given last. No item does so in
an unbroken run. Policy and mark are those of the holder, and the tree, if the engine builds it, is
the holder's. -/
theorem config_of_run (hrun : (ofProgram p).follow? ms = some s)
    (hf : s.top? i = some (.claimTree call item component handle listener))
    (hc : (s.store.claimTree call item component handle listener).2.config? = some config) :
    ∃ ks ns u y, ms = ks ++ .carry i :: ns ∧ (ofProgram p).follow? ks = some u ∧
      u.top? i = some (.openRequest call) ∧
      (u.store.holders[call.holder]?.bind (·.state.item)) = some item ∧
      item.value.component? = some config.root ∧
      config.clipsChildren =
        ((item.value.attribute? Descriptor.clipKey).bind Attribute.asBool?).getD true ∧
      (∀ a ∈ u.runActs (.carry i :: ns), a.resets call.holder = false) ∧
      s.store.holders[call.holder]? = some y ∧
      y.state.item =
        (Store.lastGiven? call.holder u.store (u.runActs (.carry i :: ns))).or (some item) ∧
      ((ofProgram p).unbroken ms →
        u.store.Unoffered call.holder (u.runActs (.carry i :: ns))) ∧
      config.policy = y.state.policy ∧ config.wasMounted = y.state.mounted ∧
      ∀ t, (s.store.claimTree call item component handle listener).2 = .built config t →
        (s.store.claimTree call item component handle listener).1.live? call.holder = some t := by
  obtain ⟨y, engine, hy, he, hg, ht, rfl⟩ := Store.exists_of_config?_claimTree hc
  obtain ⟨u, x, ns, ho⟩ := allOpened_of_run hrun _ _ _ _ _ _ (mem_work_of_top? hf rfl)
  obtain ⟨ks, hms, hks⟩ := ho.run
  have hfollow := ho.follow? hrun
  obtain ⟨-, -, hcomponent, -⟩ := Reachable.sound ⟨p, ms, hrun⟩ |>.top hf
  have hresets := ho.not_resets hrun hy hg
  obtain ⟨z, hz, hitem⟩ := Store.item_acts ho.holder hresets
  rw [← store_follow? hfollow] at hz
  obtain rfl := Option.some.inj (hz.symm.trans hy)
  refine ⟨ks, ns, u, z, hms, hks, ho.opened, ?_, hcomponent, rfl, hresets, hy, ?_,
    ho.unoffered hrun, rfl, rfl, fun t hbuilt => ?_⟩
  · rw [ho.holder]
    exact ho.item
  · rw [hitem, ho.item]
  · exact (live?_of_claimTree (.inr ⟨_, Prod.ext rfl hbuilt⟩)).1

/-! ### A descriptor replaced by the factory

The factory gives the holder another descriptor while the request is between its two steps, once
with another component that does not clip its children, and once with a view.
-/

namespace Replaced

def replacing (other : String) : Program where
  steps := []
  scripts := [[[{ name := none, command := .onHolder "h" (.describe other) }]]]

def upToClaim : List Moment :=
  told (.component "c" "c" .byName) ++ told (.component "k" "k" .byName) ++
    told (.item "d" (.component "c") []) ++
    told (.item "other" (.component "k") [.attribute "clip_children" (.bool false)]) ++
    told (.item "view" (.view 1) []) ++ told (.engine "e" .standard {}) ++
    told (.acquire "d" [] (some ⟨none, false, some 0, none⟩) "shared" (some "h")) ++
    [.give mainThread (.layout default "e" "" "h" false)] ++ List.replicate 7 (.carry mainThread)

def fromClaim : List Moment := List.replicate 8 (.carry mainThread)

def byComponent : Session := ((ofProgram (replacing "other")).follow? upToClaim).get (by decide)

def byView : Session := ((ofProgram (replacing "view")).follow? upToClaim).get (by decide)

def afterComponent : Session := (byComponent.follow? fromClaim).get (by decide)

def afterView : Session := (byView.follow? fromClaim).get (by decide)

def asked : Call := ⟨0, 0, "", default, false⟩

def shown : Component := ⟨0, .byName, "c"⟩

def first : Shared Descriptor := ⟨0, { content := .component shown }⟩

def listening : MeasureListener := ⟨⟨none, false, some 0, none⟩, some ⟨0, 0⟩⟩

/-- The descriptor of the first holder. -/
def current? (s : Session) : Option Descriptor :=
  s.store.holders[0]?.bind fun x => x.state.item.map (·.value)

theorem built_for_another :
    (byComponent.Reachable ∧
        byComponent.top? mainThread =
          some (.claimTree asked first shown ⟨0, 0⟩ (some listening)) ∧
        (byComponent.store.claimTree asked first shown ⟨0, 0⟩ (some listening)).2.config?.any
          (fun config => (current? byComponent).any fun d =>
            d.component? ≠ some config.root ∧ d.clipsChildren ≠ config.clipsChildren) ∧
        afterComponent.store.live? 0 = some ⟨0, 0⟩) ∧
      byView.Reachable ∧
        byView.top? mainThread =
          some (.claimTree asked first shown ⟨0, 0⟩ (some listening)) ∧
        (byView.store.claimTree asked first shown ⟨0, 0⟩ (some listening)).2.config?.isSome ∧
        (current? byView).any (·.rendersView) ∧ afterView.store.live? 0 = some ⟨0, 0⟩ := by
  refine ⟨⟨⟨_, upToClaim, (Option.some_get _).symm⟩, rfl, by decide, by decide⟩,
    ⟨_, upToClaim, (Option.some_get _).symm⟩, rfl, by decide, by decide, by decide⟩

/-- The descriptor that the holder has was given to it after the first step of the request. -/
theorem described_since : ∃ (u : Session) (ns : List Moment),
    u.top? mainThread = some (.openRequest asked) ∧
      (Store.lastGiven? 0 u.store (u.runActs (.carry mainThread :: ns))).any
        (·.value.clipsChildren = false) := by
  have hrun : (ofProgram (replacing "other")).follow? upToClaim = some byComponent :=
    (Option.some_get _).symm
  have htop : byComponent.top? mainThread =
      some (.claimTree asked first shown ⟨0, 0⟩ (some listening)) := rfl
  have hc : (byComponent.store.claimTree asked first shown ⟨0, 0⟩
      (some listening)).2.config?.isSome := by decide
  obtain ⟨-, ns, u, y, -, -, hopened, -, -, -, -, hy, hitem, -⟩ :=
    config_of_run hrun htop (Option.some_get hc).symm
  refine ⟨u, ns, hopened, ?_⟩
  have hnow : (byComponent.store.holders[asked.holder]?.bind (·.state.item)).any
      (·.value.clipsChildren = false) := by decide
  rw [hy, Option.bind_some, hitem] at hnow
  cases hlast : Store.lastGiven? asked.holder u.store (u.runActs (.carry mainThread :: ns)) with
  | some item =>
      rw [hlast] at hnow
      exact hlast ▸ hnow
  | none =>
      rw [hlast] at hnow
      exact absurd hnow (by decide)

end Replaced

end Recycler.Session

import Recycler.Proofs.Agree.Layout
import Recycler.Proofs.Store.Supply

/-!
# Requests up to their layout

A layout request for a component comes to the same point whether it is waited for or not: the
constraints are recorded, the factory was called if there was no tree, and the tree in use is the
one to be laid out (`exists_prepared`). From there on the two ways part.
-/

namespace Recycler

/-- The executor of the next layout of a holder: the one of the tree in use, or else the one that
goes with the next tree. -/
def Store.layoutOn? (s : Store) (h : Nat) : Option Executor :=
  match s.live? h with
  | some t => (s.tree? t).bind (·.config.policy.layoutOn)
  | none => s.holders[h]?.bind (·.state.policy.layoutOn)

theorem Store.layoutOn?_of_vacant {s : Store} {h : Nat} {x : Holder}
    (hx : s.holders[h]? = some x) (ht : x.state.slot.tree? = none) :
    s.layoutOn? h = x.state.policy.layoutOn := by
  rw [layoutOn?, s.live?_eq hx, ht, hx, Option.bind_some]

/-- A claim that is met changes an engine in its trees and nothing else. -/
theorem Store.exists_engine_claimTree {s : Store} {call : Call} {handle : WeakHandle} {x : Holder}
    {e : Engine} (item : Shared Descriptor) (component : Component)
    (listener : Option MeasureListener) (hx : s.holders[call.holder]? = some x)
    (he : s.engines[call.engine]? = some e) (hg : x.generation = handle.generation)
    (ht : x.state.slot.tree? = none) (hr : e.refuses = false) : ∃ trees,
      (s.claimTree call item component handle listener).1.engines[call.engine]? =
        some { e with trees } := by
  have hrefuses : ¬ e.refuses = true := by simp [hr]
  let built : Tree := .ofConfig (treeConfig x.state item component listener)
  unfold claimTree
  simp only [hx, he, ht, if_pos hg, if_neg hrefuses]
  cases x.state.readyListener with
  | none => exact ⟨e.trees ++ [built], by simp [modifyEngine, he, Engine.build, built]⟩
  | some l =>
      refine ⟨(e.trees ++ [built]).modify e.trees.length (·.setReadyListener (some l)), ?_⟩
      simp [modifyTree, modifyEngine, he, Engine.build, Engine.modifyTree, built]

theorem Store.queues_claimTree (s : Store) (call : Call) (item : Shared Descriptor)
    (component : Component) (handle : WeakHandle) (listener : Option MeasureListener) :
    (s.claimTree call item component handle listener).1.queues = s.queues := by
  unfold claimTree
  split
  · next x e _ _ =>
      split
      · split
        · rfl
        · dsimp only
          split
          · rfl
          · cases x.state.readyListener <;> rfl
      · rfl
  · rfl

/-- The request that a call comes to, waited for or in the background. -/
def Call.request (call : Call) (background : Bool) (item : Shared Descriptor)
    (component : Component) (tree : TreeRef) : Request where
  call := { call with background }
  item
  component
  tree

namespace Session

/-- What a factory is shown of the holder of its handle, and the session that remembers it. -/
def shownBy (s : Session) (handle : WeakHandle) : Session × Option HolderView :=
  match s.resolve? handle with
  | some h => s.view? h
  | none => (s, none)

/-- The session after a factory was called. -/
def calledFactory (s : Session) (factory : Factory) (handle : WeakHandle) : Session :=
  ((s.shownBy handle).1.report (.factory factory.name (s.shownBy handle).2 handle)).called
    factory.script

/-- The session after the factory was called, if the holder has one. -/
def askedFactory (s : Session) (factory : Option Factory) (handle : WeakHandle) : Session :=
  match factory with
  | some f => s.calledFactory f handle
  | none => s

/-- The session after a tree was built for a holder in a state. -/
def equipped (s : Session) (call : Call) (item : Shared Descriptor) (component : Component)
    (handle : WeakHandle) (listener : Option MeasureListener) (state : Holder.State) : Session :=
  ({ s with store := (s.store.claimTree call item component handle listener).1 }).reportBuilding
    call.engine (Store.treeConfig state item component listener)

variable {b c d s : Session} {i h : Nat} {fs : List Frame} {factory : Factory}
  {handle : WeakHandle} {x : Holder} {e : Engine} {item : Shared Descriptor}
  {component : Component}

/-! ## Factories -/

theorem At.view? (hat : At b i fs c s) (h : Nat) :
    At b i fs (c.view? h).1 (s.view? h).1 ∧ (s.view? h).2 = (c.view? h).2 := by
  obtain rfl := hat.scene
  unfold Session.view? showHolder
  have hstore : s.scene.store = s.store := rfl
  rw [hstore]
  cases s.store.holders[h]? with
  | none => exact ⟨hat, rfl⟩
  | some x =>
      have hshown : s.scene.shown = s.shown := rfl
      dsimp only
      rw [hshown]
      cases s.shown.idxOf? h with
      | none => exact ⟨hat.congr rfl rfl rfl, rfl⟩
      | some n => exact ⟨hat, rfl⟩

theorem writes_view? (c : Session) (h : Nat) : Writes c (c.view? h).1 := by
  unfold view? showHolder
  split
  · exact .refl c
  · cases c.shown.idxOf? h with
    | none => exact ⟨rfl, rfl, fun _ hw => hw⟩
    | some n => exact .refl c

theorem At.shownBy (hat : At b i fs c s) (hb : b.Calm) (handle : WeakHandle) :
    At b i fs (c.shownBy handle).1 (s.shownBy handle).1 ∧
      (s.shownBy handle).2 = (c.shownBy handle).2 := by
  unfold Session.shownBy
  rw [hat.resolve? hb]
  cases c.resolve? handle with
  | none => exact ⟨hat, rfl⟩
  | some h => exact hat.view? h

theorem writes_shownBy (c : Session) (handle : WeakHandle) : Writes c (c.shownBy handle).1 := by
  unfold shownBy
  split
  · exact c.writes_view? _
  · exact .refl c

theorem writes_calledFactory (c : Session) (factory : Factory) (handle : WeakHandle) :
    Writes c (c.calledFactory factory handle) :=
  (c.writes_shownBy handle).trans ((writes_report _ _).trans (writes_called _ _))

theorem leads_factory (hb : b.Calm) (handle : WeakHandle) (hwrites : c.OnlyWrites factory.script) :
    Leads b i (.factory factory handle :: fs) c fs (c.calledFactory factory handle) := by
  refine .fire hb rfl ((c.writes_shownBy handle).scripts _ hwrites) fun s hat => ?_
  obtain ⟨hshown, hview⟩ := hat.off.shownBy hb handle
  exact ⟨rfl, _, hview ▸ hshown.report _, rfl⟩

/-! ## From the request to its layout -/

/-- An engine would build a tree for a holder in the state `x` that nothing stands in the way of,
and the callbacks of the holder only write heights. -/
structure Open (c : Session) (n : Nat) (x : Holder.State) (e : Engine) : Prop where
  engine : c.store.engines[n]? = some e
  gate : e.gate = none
  armed : e.armed = none
  accepts : e.refuses = false
  measure : c.OnlyWrites e.manner.script
  factory : ∀ f, x.factory = some f → c.OnlyWrites f.script ∧ c.OnlyWrites f.listenerScript
  ready : ∀ listener, x.readyListener = some listener → c.OnlyWrites listener.script

/-- Nothing stands in the way of a layout of a holder, and the callbacks on the way only write
heights. -/
structure Plain (c : Session) (n : Nat) (x : Holder.State) : Prop where
  live : ∀ t, x.slot.tree? = some t → ∃ e tree, c.Clear t e tree
  vacant : x.slot.tree? = none → ∃ e, c.Open n x e

/-- A request for an item has come to the layout of a tree. -/
structure Prepared (c d : Session) (h : Nat) (item : Shared Descriptor) (t : TreeRef) : Prop where
  registers : d.registers = c.registers
  queues : d.store.queues = c.store.queues
  holder : ∃ y, d.store.holders[h]? = some y ∧ y.state.slot.tree? = some t ∧
    y.state.item = some item
  clear : ∃ e tree, d.Clear t e tree
  executor : (d.store.tree? t).bind (·.config.policy.layoutOn) = c.store.layoutOn? h

/-- The session after a request went on as a layout, or handed it over. -/
def launched (c : Session) (r : Request) : Session :=
  c.modifyStore fun σ => σ.acts (launchActs σ r)

theorem At.launch (hat : At b i fs c s) (r : Request) (hheld : c.Holds r.call.holder) :
    At b i (launchFrames c.store r ++ fs) (c.launched r) (s.launch i r) := by
  have hlaunched : At b i fs (c.launched r)
      { s with store := c.store.acts (launchActs c.store r) } :=
    hat.modifyStore fun _ => c.store.acts (launchActs c.store r)
  rw [launch_eq, hat.store]
  refine hlaunched.push (launchFrames c.store r) fun g hg => ?_
  rcases of_mem_launchFrames hg with rfl | rfl | rfl
  · exact .plain rfl
  · exact ⟨rfl, rfl, fun k hk => Option.some.inj hk ▸ hheld⟩
  · exact ⟨rfl, rfl, fun k hk => Option.some.inj hk ▸ hheld⟩

theorem openRequest_eq {call : Call} (hx : c.store.holders[call.holder]? = some x)
    (hitem : x.state.item = some item) (hcomponent : item.value.component? = some component) :
    c.store.openRequest call = (c.store.modifyState call.holder (·.request call.bounds),
      match x.state.slot.tree? with
      | some tree => .live { call, item, component, tree }
      | none => .vacant item component x.state.factory (x.downgrade call.holder)) := by
  unfold Store.openRequest
  simp only [hx, hitem, hcomponent]
  cases x.state.slot.tree? <;> rfl

/-- The session after the first step of a request for a component. -/
def opened (c : Session) (h : Nat) (bounds : Bounds) : Session :=
  c.modifyStore (·.modifyState h (·.request bounds))

theorem getElem?_opened (hx : c.store.holders[h]? = some x) (bounds : Bounds) :
    (c.opened h bounds).store.holders[h]? =
      some { x with state := x.state.request bounds } := by
  rw [opened, modifyStore, Store.getElem?_modifyState, hx, Option.map_some, if_pos rfl]

theorem Clear.congr {t : TreeRef} {tree : Tree} (hc : c.Clear t e tree)
    (hengines : d.store.engines = c.store.engines)
    (hscripts : ∀ script, c.OnlyWrites script → d.OnlyWrites script) : d.Clear t e tree where
  engine := by rw [hengines]; exact hc.engine
  tree := (Store.tree?_congr hengines t).trans hc.tree
  gate := hc.gate
  armed := hc.armed
  released := hc.released
  measure := hscripts _ hc.measure
  listener listener hl := hscripts _ (hc.listener listener hl)
  ready listener hl := hscripts _ (hc.ready listener hl)

theorem prepared_of_live {t : TreeRef} {tree : Tree} (bounds : Bounds)
    (hx : c.store.holders[h]? = some x) (hitem : x.state.item = some item)
    (ht : x.state.slot.tree? = some t) (hc : c.Clear t e tree) :
    Prepared c (c.opened h bounds) h item t where
  registers := rfl
  queues := rfl
  holder := ⟨_, getElem?_opened hx bounds, ht, hitem⟩
  clear := ⟨e, tree, hc.congr rfl fun _ hw => hw⟩
  executor := by
    rw [Store.layoutOn?, c.store.live?_eq hx, ht]
    rfl

/-- The tree that an engine builds for a holder is clear. -/
theorem Open.clear_claimTree {call : Call} {listener : Option MeasureListener}
    (item : Shared Descriptor) (component : Component) (ho : c.Open call.engine x.state e)
    (hx : c.store.holders[call.holder]? = some x)
    (hg : x.generation = handle.generation) (ht : x.state.slot.tree? = none)
    (hlistener : ∀ l, listener = some l → c.OnlyWrites l.factory.listenerScript) :
    ∃ e' tree, ({ c with store := (c.store.claimTree call item component handle listener).1 }).Clear
        ⟨call.engine, e.trees.length⟩ e' tree ∧ tree.config.policy = x.state.policy := by
  have htree := c.store.tree?_claimTree_of_vacant item component listener hx ho.engine hg ht
    ⟨call.engine, e.trees.length⟩
  have hnone : c.store.tree? ⟨call.engine, e.trees.length⟩ = none := by
    have hnext := c.store.not_built_next ho.engine
    rwa [Store.Built, Option.not_isSome_iff_eq_none] at hnext
  rw [hnone, if_pos ⟨ho.accepts, rfl⟩, Option.none_or] at htree
  obtain ⟨trees, hengine⟩ := Store.exists_engine_claimTree item component listener hx ho.engine hg
    ht ho.accepts
  refine ⟨_, _, {
    engine := hengine
    tree := htree
    gate := ho.gate
    armed := ho.armed
    released := rfl
    measure := ho.measure
    listener := fun l hl => hlistener l hl
    ready := fun l hl => ho.ready l hl }, rfl⟩

theorem At.reportBuilding (hat : At b i fs c s) (n : Nat) (config : Tree.Config) :
    At b i fs (c.reportBuilding n config) (s.reportBuilding n config) := by
  unfold Session.reportBuilding
  rw [hat.store]
  split
  · split
    · exact hat.report _
    · exact hat
  · exact hat

theorem writes_reportBuilding (c : Session) (n : Nat) (config : Tree.Config) :
    Writes c (c.reportBuilding n config) := by
  unfold reportBuilding
  split
  · split
    · exact c.writes_report _
    · exact .refl c
  · exact .refl c

section Vacant

variable {call : Call} {listener : Option MeasureListener}

theorem store_equipped (c : Session) (call : Call) (item : Shared Descriptor)
    (component : Component) (handle : WeakHandle) (listener : Option MeasureListener)
    (state : Holder.State) : (c.equipped call item component handle listener state).store =
      (c.store.claimTree call item component handle listener).1 :=
  (like_reportBuilding _ _ _).store

/-- The second step of a request that builds a tree. -/
theorem leads_claimTree (call : Call) (item : Shared Descriptor)
    (component : Component) (handle : WeakHandle) (listener : Option MeasureListener)
    (ho : c.Open call.engine x.state e) (hx : c.store.holders[call.holder]? = some x)
    (hg : x.generation = handle.generation) (ht : x.state.slot.tree? = none)
    (hheld : c.Holds call.holder)
    {r : Request} (hr : r = ⟨call, item, component, ⟨call.engine, e.trees.length⟩⟩) :
    Leads b i (.claimTree call item component handle listener :: fs) c
      (launchFrames (c.equipped call item component handle listener x.state).store r ++ fs)
      ((c.equipped call item component handle listener x.state).launched r) := by
  have hclaim : c.store.claimTree call item component handle listener =
      ((c.store.claimTree call item component handle listener).1,
        .built (Store.treeConfig x.state item component listener)
          ⟨call.engine, e.trees.length⟩) := by
    refine Prod.ext rfl ?_
    rw [Store.snd_claimTree_of_vacant hx ho.engine hg ht, ho.accepts]
    rfl
  refine .step rfl fun s hat => ⟨rfl, ?_⟩
  have hbuilt := hat.off.modifyStore fun _ =>
    (c.store.claimTree call item component handle listener).1
  rw [stepFrame, stepClaimTree, hat.off.store, hclaim]
  subst hr
  exact At.launch ((hbuilt.write _).reportBuilding _ _) _
    ((writes_reportBuilding (c.modifyStore _) _ _).holds hheld)

/-- A holder without a tree is given one. -/
theorem prepared_of_vacant (call : Call) (component : Component) (handle : WeakHandle)
    (ho : c.Open call.engine x.state e)
    (hx : c.store.holders[call.holder]? = some x) (hg : x.generation = handle.generation)
    (ht : x.state.slot.tree? = none) (hitem : x.state.item = some item)
    (hlistener : ∀ l, listener = some l → c.OnlyWrites l.factory.listenerScript) :
    Prepared c (c.equipped call item component handle listener x.state) call.holder item
      ⟨call.engine, e.trees.length⟩ := by
  have hwrites := writes_reportBuilding
    { c with store := (c.store.claimTree call item component handle listener).1 } call.engine
    (Store.treeConfig x.state item component listener)
  obtain ⟨e', tree, hclear, hpolicy⟩ := ho.clear_claimTree item component hx hg ht hlistener
  have hclear' := hclear.congr (Store.engines_of_blurred hwrites.heights) hwrites.scripts
  refine {
    registers := hwrites.registers
    queues := by rw [store_equipped, Store.queues_claimTree]
    holder := ?_
    clear := ⟨e', tree, hclear'⟩
    executor := ?_ }
  · refine ⟨{ x with state := x.state.takeParked.adopt ⟨call.engine, e.trees.length⟩ }, ?_, rfl,
      hitem⟩
    rw [store_equipped,
      Store.holders_claimTree_of_vacant _ item component listener hx ho.engine hg ht,
      Store.getElem?_modifyState, hx, Option.map_some, if_pos rfl, Store.supplied, ho.engine]
    simp [ho.accepts]
  · have htree : (c.equipped call item component handle listener x.state).store.tree?
        ⟨call.engine, e.trees.length⟩ = some tree := hclear'.tree
    rw [htree, Store.layoutOn?_of_vacant hx ht, Option.bind_some, hpolicy]

end Vacant

theorem writes_askedFactory (c : Session) (factory : Option Factory) (handle : WeakHandle) :
    Writes c (c.askedFactory factory handle) := by
  cases factory with
  | none => exact .refl c
  | some f => exact c.writes_calledFactory f handle

/-- What a holder is laid out with is not changed by callbacks that write heights. -/
theorem Open.writes {n : Nat} {y : Holder.State} (ho : c.Open n y e) (hw : Writes c d)
    (height : Option Int32) : d.Open n { y with height } e where
  engine := by rw [Store.engines_of_blurred hw.heights]; exact ho.engine
  gate := ho.gate
  armed := ho.armed
  accepts := ho.accepts
  measure := hw.scripts _ ho.measure
  factory f hf := ⟨hw.scripts _ (ho.factory f hf).1, hw.scripts _ (ho.factory f hf).2⟩
  ready listener hl := hw.scripts _ (ho.ready listener hl)

/-- The first step of a request for a holder with a tree in use. -/
theorem leads_openRequest_of_live (call : Call) {t : TreeRef}
    (hx : c.store.holders[call.holder]? = some x) (hitem : x.state.item = some item)
    (hcomponent : item.value.component? = some component) (ht : x.state.slot.tree? = some t)
    (hheld : c.Holds call.holder) {r : Request} (hr : r = ⟨call, item, component, t⟩) :
    Leads b i (.openRequest call :: fs) c
      (launchFrames (c.opened call.holder call.bounds).store r ++ fs)
      ((c.opened call.holder call.bounds).launched r) := by
  refine .step rfl fun s hat => ⟨rfl, ?_⟩
  have hopened := hat.off.modifyStore fun _ =>
    c.store.modifyState call.holder (·.request call.bounds)
  rw [stepFrame, stepOpenRequest, hat.off.store, openRequest_eq hx hitem hcomponent, ht]
  subst hr
  exact hopened.launch _ hheld

/-- The first step of a request for a holder without a tree, and the call of its factory. -/
theorem leads_openRequest_of_vacant (hb : b.Calm) (call : Call)
    (hx : c.store.holders[call.holder]? = some x) (hitem : x.state.item = some item)
    (hcomponent : item.value.component? = some component) (ht : x.state.slot.tree? = none)
    (hheld : c.Holds call.holder)
    (hwrites : ∀ f, x.state.factory = some f → c.OnlyWrites f.script) :
    Leads b i (.openRequest call :: fs) c
      (.claimTree call item component (x.downgrade call.holder)
        (x.state.factory.map fun f => ⟨f, some (x.downgrade call.holder)⟩) :: fs)
      ((c.opened call.holder call.bounds).askedFactory x.state.factory
        (x.downgrade call.holder)) := by
  have hopened (s : Session) (hat : At b i (.openRequest call :: fs) c s) :=
    hat.off.modifyStore (·.modifyState call.holder (·.request call.bounds))
  have hstep (s : Session) (hat : At b i (.openRequest call :: fs) c s) :
      (s.off i).stepFrame i (.openRequest call) =
        match x.state.factory with
        | none => ((s.off i).opened call.holder call.bounds).push i
            [.claimTree call item component (x.downgrade call.holder) none]
        | some f => ((s.off i).opened call.holder call.bounds).push i
            [.factory f (x.downgrade call.holder),
              .claimTree call item component (x.downgrade call.holder)
                (some ⟨f, some (x.downgrade call.holder)⟩)] := by
    have hstore := hat.off.store
    rw [stepFrame, stepOpenRequest, hstore, openRequest_eq hx hitem hcomponent, ht, ← hstore]
    cases x.state.factory <;> rfl
  have hclaims (handle : WeakHandle) (listener : Option MeasureListener) :
      (c.opened call.holder call.bounds).Anchored
        (.claimTree call item component handle listener) :=
    ⟨rfl, rfl, fun k hk => Option.some.inj hk ▸ hheld⟩
  cases hfactory : x.state.factory with
  | none =>
      refine .step rfl fun s hat => ⟨rfl, ?_⟩
      rw [hstep s hat, hfactory]
      refine (hopened s hat).push [_] fun g hg => ?_
      rw [List.mem_singleton.1 hg]
      exact hclaims _ _
  | some f =>
      refine .trans (.step rfl fun s hat => ⟨rfl, ?_⟩) (leads_factory hb _ (hwrites f hfactory))
      rw [hstep s hat, hfactory]
      refine (hopened s hat).push [_, _] fun g hg => ?_
      rcases List.mem_cons.1 hg with rfl | hg
      · exact .plain rfl
      · rw [List.mem_singleton.1 hg]
        exact hclaims _ _

/-- A request for a component comes to a layout, and to the same one whether it is waited for or in
the background. -/
theorem exists_prepared (hb : b.Calm) (call : Call) (hheld : c.Holds call.holder)
    (hx : c.store.holders[call.holder]? = some x) (hitem : x.state.item = some item)
    (hcomponent : item.value.component? = some component) (hplain : c.Plain call.engine x.state) :
    ∃ d t, Prepared c d call.holder item t ∧ ∀ background fs,
      let r := call.request background item component t
      Leads b i (.openRequest r.call :: fs) c (launchFrames d.store r ++ fs) (d.launched r) := by
  cases ht : x.state.slot.tree? with
  | some t =>
      obtain ⟨e, tree, hclear⟩ := hplain.live t ht
      exact ⟨_, t, prepared_of_live call.bounds hx hitem ht hclear, fun background fs =>
        leads_openRequest_of_live { call with background } hx hitem hcomponent ht hheld rfl⟩
  | none =>
      obtain ⟨e, ho⟩ := hplain.vacant ht
      let handle := x.downgrade call.holder
      let listener := x.state.factory.map fun f => MeasureListener.mk f (some handle)
      let opened := c.opened call.holder call.bounds
      have hwrites := opened.writes_askedFactory x.state.factory handle
      obtain ⟨height, hy⟩ :=
        Store.exists_of_blurred hwrites.heights (getElem?_opened hx call.bounds)
      have hopened : opened.Open call.engine (x.state.request call.bounds) e :=
        ⟨ho.engine, ho.gate, ho.armed, ho.accepts, ho.measure, ho.factory, ho.ready⟩
      have ho' := hopened.writes hwrites height
      have hlistener : ∀ l, listener = some l →
          (opened.askedFactory x.state.factory handle).OnlyWrites l.factory.listenerScript := by
        intro l hl
        obtain ⟨f, hf, rfl⟩ := Option.map_eq_some_iff.1 hl
        exact (ho'.factory f hf).2
      have hprepared := prepared_of_vacant call component handle ho' hy rfl ht hitem hlistener
      have hqueues := Store.queues_of_blurred hwrites.heights
      refine ⟨_, _, {
        registers := hprepared.registers.trans hwrites.registers
        queues := hprepared.queues.trans hqueues
        holder := hprepared.holder
        clear := hprepared.clear
        executor := hprepared.executor.trans ?_ }, fun background fs => ?_⟩
      · rw [Store.layoutOn?_of_vacant hy ht, Store.layoutOn?_of_vacant hx ht]
        rfl
      · have hheld' : opened.Holds call.holder := hheld
        refine (leads_openRequest_of_vacant hb { call with background } hx hitem hcomponent ht
          hheld fun f hf => (ho.factory f hf).1).trans ?_
        exact leads_claimTree { call with background } item component handle listener ho' hy
          rfl ht (hwrites.holds hheld') rfl

/-- A request for an item without a component is at its end with the first step. -/
theorem stepOpenRequest_of_nothing (s : Session) (i : Nat) (call : Call)
    (hnone : (s.store.holders[call.holder]?.bind (·.state.item)).bind (·.value.component?) = none) :
    ∃ lines, s.stepOpenRequest i call =
      (s.write lines).answer i (if call.background then .done else .size none) := by
  have hwrite : s = s.write [] := by rw [write, List.append_nil]
  unfold stepOpenRequest Store.openRequest
  cases hx : s.store.holders[call.holder]? with
  | none => exact ⟨_, rfl⟩
  | some x =>
      rw [hx, Option.bind_some] at hnone
      cases hitem : x.state.item with
      | none => exact ⟨[⟨.warn, Log.tagged call.tag "layout requested on a released holder"⟩], by
          simp only [hitem]⟩
      | some item =>
          rw [hitem, Option.bind_some] at hnone
          exact ⟨[], by simp only [hitem, hnone, ← hwrite]⟩

end Session
end Recycler

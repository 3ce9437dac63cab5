import Recycler.Churn
import Recycler.Proofs.Store.Tree

/-!
# Turns of a churn

The store of a churn is made up of holders, one engine and one pool (`storeOf`), and what a turn
does to it can be said of these three. At each stage of an item the worker's holder is in a state
that is known (`Stage.Fits`), so that every turn is determined: the request finds the holder without
a tree and of its generation, the engine builds a tree and lays it out, and the layout is still one
of the holder when it is committed.
-/

namespace Recycler.Churn

variable {setup : Setup} {measure : Measure} {hs hs' : List Holder} {e : Engine} {pool : Pool}
  {h k i n : Nat} {x : Holder} {t : TreeRef} {it : Shared Descriptor} {component : Component}
  {state : Holder.State} {r : Request} {size : Size}

/-- A churn at its start on an engine that measures in a certain way. -/
def startOn (setup : Setup) (measure : Measure) : Churn where
  setup
  store := { engines := [{ name := "", measure }], pools := [some setup.pool] }
  workers := List.replicate setup.workers {}

theorem startOn_standard (setup : Setup) : startOn setup .standard = start setup := rfl

/-! ## The store -/

/-- A store with one engine and one pool. -/
def storeOf (hs : List Holder) (e : Engine) (pool : Pool) : Store :=
  { holders := hs, engines := [e], pools := [some pool] }

/-- Changes what a holder knows of its item. -/
def onState (hs : List Holder) (h : Nat) (f : Holder.State → Holder.State) : List Holder :=
  hs.modify h fun x => { x with state := f x.state }

/-- What a holder knows of its item. -/
def stateAt (hs : List Holder) (h : Nat) : Option Holder.State := hs[h]?.map (·.state)

/-- The tree that a holder has in use. -/
def liveAt (hs : List Holder) (h : Nat) : Option TreeRef := (stateAt hs h).bind (·.slot.tree?)

/-- An engine that builds every tree and lays out every tree, and measures in a certain way. -/
structure Willing (e : Engine) (measure : Measure) : Prop where
  measure : e.measure = measure
  gate : e.gate = none
  armed : e.armed = none
  refuses : e.refuses = false

theorem getElem?_onState (f : Holder.State → Holder.State) (k : Nat) :
    (onState hs h f)[k]? =
      hs[k]?.map fun x => if h = k then { x with state := f x.state } else x := by
  rw [onState, List.getElem?_modify]
  split <;> simp [*]

theorem getElem?_onState_of_ne (f : Holder.State → Holder.State) (hk : k ≠ h) :
    (onState hs h f)[k]? = hs[k]? := by
  rw [onState, List.getElem?_modify_ne _ _ (Ne.symm hk)]

theorem generation_onState (f : Holder.State → Holder.State) (k : Nat) :
    (onState hs h f)[k]?.map (·.generation) = hs[k]?.map (·.generation) := by
  rw [getElem?_onState, Option.map_map]
  congr 1
  funext x
  rw [Function.comp]
  split <;> rfl

theorem liveAt_congr (hk : hs'[k]? = hs[k]?) : liveAt hs' k = liveAt hs k := by
  rw [liveAt, liveAt, stateAt, stateAt, hk]

theorem liveAt_of_stateAt (hx : stateAt hs h = some state) :
    liveAt hs h = state.slot.tree? := by
  rw [liveAt, hx, Option.bind_some]

theorem stateAt_onState (f : Holder.State → Holder.State) (hx : stateAt hs h = some state) :
    stateAt (onState hs h f) h = some (f state) := by
  obtain ⟨x, hfound, rfl⟩ := Option.map_eq_some_iff.1 hx
  simp [stateAt, getElem?_onState, hfound]

theorem length_onState (f : Holder.State → Holder.State) :
    (onState hs h f).length = hs.length := List.length_modify ..

/-! ### Steps -/

theorem takeHolder_of_idle (hs : List Holder) (e : Engine) {rest : List Nat}
    (hidle : pool.idle = h :: rest) :
    (storeOf hs e pool).takeHolder Store.sharedPool = (storeOf hs e pool.take.1, h, true) := by
  refine Store.takeHolder_of_offered? _ ?_
  rw [Store.offered?, storeOf, Store.pool?]
  simp [Store.sharedPool, Pool.take, hidle]

theorem takeHolder_of_none_idle (hs : List Holder) (e : Engine) (hidle : pool.idle = []) :
    (storeOf hs e pool).takeHolder Store.sharedPool =
      (storeOf (hs ++ [.fresh Store.sharedPool]) e pool.take.1, hs.length, false) := by
  refine Store.takeHolder_of_not_offered? _ ?_
  rw [Store.offered?, storeOf, Store.pool?]
  simp [Store.sharedPool, Pool.take, hidle]

theorem openRequest_storeOf (e : Engine) (pool : Pool) (call : Call)
    (hx : hs[call.holder]? = some x) (hitem : x.state.item = some it)
    (hcomponent : it.value.component? = some component) (hslot : x.state.slot = .empty)
    (hfactory : x.state.factory = none) :
    (storeOf hs e pool).openRequest call =
      (storeOf (onState hs call.holder (·.request call.bounds)) e pool,
        .vacant it component none (x.downgrade call.holder)) := by
  have hfound : (storeOf hs e pool).holders[call.holder]? = some x := hx
  simp only [Store.openRequest, hfound, hitem, hcomponent, hslot, hfactory, Slot.tree?]
  rfl

/-- A request whose holder has no tree is given the next one. -/
theorem claimTree_storeOf (pool : Pool) (call : Call) (it : Shared Descriptor)
    (component : Component) {handle : WeakHandle} (hw : Willing e measure)
    (hx : hs[call.holder]? = some x) (hengine : call.engine = engine)
    (hgeneration : x.generation = handle.generation) (hslot : x.state.slot = .empty)
    (hlistener : x.state.readyListener = none) :
    (storeOf hs e pool).claimTree call it component handle none =
      (storeOf (onState hs call.holder (·.takeParked.adopt ⟨engine, e.trees.length⟩))
          (e.build (Store.treeConfig x.state it component none)) pool,
        .built (Store.treeConfig x.state it component none) ⟨engine, e.trees.length⟩) := by
  have hfound : (storeOf hs e pool).holders[call.holder]? = some x := hx
  have hthere : (storeOf hs e pool).engines[call.engine]? = some e := by
    rw [hengine]
    rfl
  have htwice : onState (onState hs call.holder (·.takeParked)) call.holder
      (·.adopt ⟨engine, e.trees.length⟩) =
        onState hs call.holder (·.takeParked.adopt ⟨engine, e.trees.length⟩) := by
    rw [onState, onState, List.modify_modify_eq]
    rfl
  simp only [Store.claimTree, hfound, hthere, if_pos hgeneration, hslot, hlistener, Slot.tree?,
    hw.refuses]
  rw [← htwice, hengine]
  rfl

theorem enterLayout_storeOf (hs : List Holder) (pool : Pool) {tree : Tree}
    (hw : Willing e measure) (hengine : t.engine = engine) (ht : e.trees[t.index]? = some tree)
    (hr : tree.released = false) :
    (storeOf hs e pool).enterLayout t = (storeOf hs e pool, .free none) := by
  have hthere : (storeOf hs e pool).engines[t.engine]? = some e := by
    rw [hengine]
    rfl
  have htree : (storeOf hs e pool).tree? t = some tree := by
    rw [Store.tree?, hthere]
    exact ht
  simp only [Store.enterLayout, hthere, htree, hr, hw.armed, hw.gate]
  rfl

theorem measure_storeOf (hs : List Holder) (pool : Pool) {l : Layout} (hw : Willing e measure)
    (hengine : l.tree.engine = engine) :
    (storeOf hs e pool).measure l = measure.size l.root l.bounds := by
  rw [Store.measure, hengine, ← hw.measure]
  rfl

/-- An engine after a layout was committed to one of its trees. -/
def settled (e : Engine) (l : Layout) (size : Size) : Engine :=
  { e.modifyTree l.tree.index (·.commit l.root l.bounds l.props size) with
    layouts := e.layouts + 1 }

theorem settleLayout_storeOf (hs : List Holder) (e : Engine) (pool : Pool) {l : Layout}
    (size : Size) (hengine : l.tree.engine = engine) :
    (storeOf hs e pool).settleLayout l size = storeOf hs (settled e l size) pool := by
  rw [Store.settleLayout, Store.modifyTree, hengine]
  rfl

theorem commitLayout_storeOf (e : Engine) (pool : Pool) (size : Size)
    (hx : hs[r.call.holder]? = some x)
    (hcurrent : x.state.isCurrent r.item r.tree) :
    (storeOf hs e pool).commitLayout r size =
      storeOf (onState hs r.call.holder (·.commit size.height)) e pool := by
  have hfound : (storeOf hs e pool).holders[r.call.holder]? = some x := hx
  rw [Store.commitLayout, Store.isCurrent_eq _ hfound, if_pos hcurrent]
  rfl

theorem reset_storeOf (e : Engine) (pool : Pool) (hlive : liveAt hs h = some t)
    (hengine : t.engine = engine) :
    (storeOf hs e pool).reset h =
      storeOf (hs.modify h Holder.reset) (e.modifyTree t.index Tree.release) pool := by
  have hfound : ((storeOf hs e pool).holders[h]?.bind fun x => x.state.slot.tree?) = some t := by
    rw [liveAt, stateAt, Option.bind_map] at hlive
    exact hlive
  simp only [Store.reset, hfound, Store.modifyTree, hengine]
  rfl

theorem giveBack_storeOf (e : Engine) (pool : Pool) (hx : hs[h]? = some x)
    (hhome : x.home = Store.sharedPool) :
    ((storeOf hs e pool).giveBack h false).1 = storeOf hs e (pool.offer h) := by
  have hfound : (storeOf hs e pool).holders[h]? = some x := hx
  have hpool : (storeOf hs e pool).pool? x.home = some pool := by
    rw [hhome]
    rfl
  simp only [Store.giveBack, hfound, hpool]
  rw [hhome]
  rfl

/-! ## Stages -/

/-- The number of turns that a worker had for its item when it is at a stage. -/
def Stage.rank : Stage → Nat
  | take => 0
  | configure _ => 1
  | inspect _ => 2
  | openRequest _ => 3
  | claimTree .. => 4
  | enter _ => 5
  | settle .. => 6
  | commit .. => 7
  | judge .. => 8
  | reset _ => 9
  | giveBack _ => 10

/-- A holder's state after it was configured for an item. -/
def configured (it : Shared Descriptor) : Holder.State := ({} : Holder.State).configure it {} none

/-- Its state after the constraints of the layout were recorded. -/
def requested (setup : Setup) (it : Shared Descriptor) : Holder.State :=
  (configured it).request setup.bounds

/-- Its state after a tree was built. -/
def adopted (setup : Setup) (it : Shared Descriptor) (t : TreeRef) : Holder.State :=
  (requested setup it).takeParked.adopt t

/-- A request is one of a churn for an item. -/
structure IsFor (setup : Setup) (it : Shared Descriptor) (r : Request) : Prop where
  engine : r.call.engine = engine
  bounds : r.call.bounds = setup.bounds
  item : r.item = it
  component : it.value.component? = some r.component

/-- A worker at a stage of its item has what goes with the stage. -/
def Stage.Fits (setup : Setup) (measure : Measure) (hs : List Holder) (it : Shared Descriptor) :
    Stage → Prop
  | take => True
  | configure h => stateAt hs h = some {}
  | inspect h => stateAt hs h = some (configured it)
  | openRequest h => stateAt hs h = some (configured it)
  | claimTree h it' component handle => stateAt hs h = some (requested setup it) ∧ it' = it ∧
      it.value.component? = some component ∧
      hs[h]?.map (·.generation) = some handle.generation
  | enter r => IsFor setup it r ∧ stateAt hs r.call.holder = some (adopted setup it r.tree)
  | settle r size => IsFor setup it r ∧
      stateAt hs r.call.holder = some (adopted setup it r.tree) ∧
      size = measure.size r.component setup.bounds
  | commit r size => IsFor setup it r ∧
      stateAt hs r.call.holder = some (adopted setup it r.tree) ∧
      size = measure.size r.component setup.bounds
  | judge h outcome => ∃ component t, it.value.component? = some component ∧
      outcome = .ok (some (measure.size component setup.bounds)) ∧ stateAt hs h =
        some ((adopted setup it t).commit (measure.size component setup.bounds).height)
  | reset h => ∃ t, liveAt hs h = some t
  | giveBack h => stateAt hs h = some {}

/-- The holder of a worker is there. -/
theorem Stage.Fits.exists_holder {stage : Stage} (hf : stage.Fits setup measure hs it)
    (hh : stage.holder? = some h) : ∃ x, hs[h]? = some x := by
  have hsome {state : Holder.State} (hx : stateAt hs h = some state) : ∃ x, hs[h]? = some x :=
    (Option.map_eq_some_iff.1 hx).imp fun _ hx => hx.1
  cases stage with
  | take => cases hh
  | configure k => obtain rfl := Option.some.inj hh; exact hsome hf
  | inspect k => obtain rfl := Option.some.inj hh; exact hsome hf
  | openRequest k => obtain rfl := Option.some.inj hh; exact hsome hf
  | claimTree k it' component handle => obtain rfl := Option.some.inj hh; exact hsome hf.1
  | enter r => obtain rfl := Option.some.inj hh; exact hsome hf.2
  | settle r size => obtain rfl := Option.some.inj hh; exact hsome hf.2.1
  | commit r size => obtain rfl := Option.some.inj hh; exact hsome hf.2.1
  | judge k outcome =>
      obtain rfl := Option.some.inj hh
      obtain ⟨component, t, -, -, hx⟩ := hf
      exact hsome hx
  | reset k =>
      obtain rfl := Option.some.inj hh
      obtain ⟨t, ht⟩ := hf
      obtain ⟨state, hx, -⟩ := Option.bind_eq_some_iff.1 ht
      exact hsome hx
  | giveBack k => obtain rfl := Option.some.inj hh; exact hsome hf

/-- What goes with a stage is a matter of the worker's own holder. -/
theorem Stage.Fits.congr {stage : Stage} (hf : stage.Fits setup measure hs it)
    (hsame : ∀ h, stage.holder? = some h → hs'[h]? = hs[h]?) :
    stage.Fits setup measure hs' it := by
  have hstate {h : Nat} (hh : stage.holder? = some h) : stateAt hs' h = stateAt hs h := by
    rw [stateAt, stateAt, hsame h hh]
  cases stage with
  | take => trivial
  | configure k => exact (hstate rfl).trans hf
  | inspect k => exact (hstate rfl).trans hf
  | openRequest k => exact (hstate rfl).trans hf
  | claimTree k it' component handle =>
      obtain ⟨hx, hitem, hcomponent, hgeneration⟩ := hf
      exact ⟨(hstate rfl).trans hx, hitem, hcomponent, by rw [hsame k rfl, hgeneration]⟩
  | enter r => exact ⟨hf.1, (hstate rfl).trans hf.2⟩
  | settle r size => exact ⟨hf.1, (hstate rfl).trans hf.2.1, hf.2.2⟩
  | commit r size => exact ⟨hf.1, (hstate rfl).trans hf.2.1, hf.2.2⟩
  | judge k outcome =>
      obtain ⟨component, t, hcomponent, houtcome, hx⟩ := hf
      exact ⟨component, t, hcomponent, houtcome, (hstate rfl).trans hx⟩
  | reset k =>
      obtain ⟨t, ht⟩ := hf
      refine ⟨t, ?_⟩
      rw [liveAt, hstate rfl]
      exact ht
  | giveBack k => exact (hstate rfl).trans hf

end Recycler.Churn

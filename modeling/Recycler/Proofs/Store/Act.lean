import Recycler.Store.Layout
import Recycler.Store.Request
import Recycler.Store.Upkeep

/-!
# Acts on the store

Whatever happens to the store happens by one of the acts listed here, each of them a stretch of
work during which nothing else can happen. `Store.act` carries an act out by the function of the
store that it stands for.

`holders_act` says what an act does to a holder, and it is the only statement that opens those
functions for their effect on holders. `tree?_act` does the same for trees.
-/

namespace Recycler

/-- A change of what a holder knows of its item that looks at nothing else. -/
inductive Holder.Change
  | describe (item : Shared Descriptor)
  | invalidate
  | setHeight (height : Int32)
  | setInserted (inserted : Bool)
  | clearParked

/-- Carries a change out. -/
def Holder.State.change (s : Holder.State) : Holder.Change → Holder.State
  | .describe item => s.describe item
  | .invalidate => s.invalidate
  | .setHeight height => { s with height := some height }
  | .setInserted inserted => { s with inserted := inserted }
  | .clearParked => s.clearParked

theorem Holder.State.clearParked_eq (s : Holder.State) :
    ∃ slot, s.clearParked = { s with slot } := by
  unfold clearParked
  split <;> exact ⟨_, rfl⟩

/-- No change is about the requests, the listeners or the trees that were evicted. -/
theorem Holder.State.change_eq (s : Holder.State) (c : Holder.Change) :
    ∃ item slot height valid inserted,
      s.change c = { s with item, slot, height, valid, inserted } := by
  cases c with
  | clearParked =>
      obtain ⟨slot, heq⟩ := s.clearParked_eq
      exact ⟨_, slot, _, _, _, heq⟩
  | _ => exact ⟨_, _, _, _, _, rfl⟩

@[simp] theorem Holder.State.requested_change (s : Holder.State) (c : Holder.Change) :
    (s.change c).requested = s.requested := by
  obtain ⟨item, slot, height, valid, inserted, heq⟩ := s.change_eq c
  rw [heq]

@[simp] theorem Holder.State.readyListener_change (s : Holder.State) (c : Holder.Change) :
    (s.change c).readyListener = s.readyListener := by
  obtain ⟨item, slot, height, valid, inserted, heq⟩ := s.change_eq c
  rw [heq]

@[simp] theorem Holder.State.mounted_change (s : Holder.State) (c : Holder.Change) :
    (s.change c).mounted = s.mounted := by
  obtain ⟨item, slot, height, valid, inserted, heq⟩ := s.change_eq c
  rw [heq]

@[simp] theorem Holder.State.factory_change (s : Holder.State) (c : Holder.Change) :
    (s.change c).factory = s.factory := by
  obtain ⟨item, slot, height, valid, inserted, heq⟩ := s.change_eq c
  rw [heq]

@[simp] theorem Holder.State.tree?_change (s : Holder.State) (c : Holder.Change) :
    (s.change c).slot.tree? = s.slot.tree? := by
  cases c with
  | clearParked =>
      rw [change, clearParked]
      cases hs : s.slot <;> simp [hs, Slot.tree?]
  | _ => rfl

theorem Holder.State.isCurrent_iff {x : Holder.State} {item : Shared Descriptor} {t : TreeRef} :
    x.isCurrent item t ↔
      x.slot.tree? = some t ∧ ∃ item', x.item = some item' ∧ item'.same item := by
  rw [isCurrent, Bool.and_eq_true, decide_eq_true_eq, Option.any_eq_true]

/-- A change of a tree by somebody who is not laying it out. -/
inductive Tree.Change
  | release
  | reportWindow (position : UInt64) (window : Window)
  | setReadyListener (listener : Option ReadyListener)
  | mount
  | update (key : String) (value : Value)

/-- Carries a change out. -/
def Tree.change (t : Tree) : Tree.Change → Tree
  | .release => t.release
  | .reportWindow position window => t.reportWindow position window
  | .setReadyListener listener => t.setReadyListener listener
  | .mount => t.mount
  | .update key value => t.update key value

/-- A change of how an engine goes on. -/
inductive Engine.Change
  | setGate (gate : Option Nat)
  | arm (reason : String)
  | setRefusal (refuses : Bool)

/-- Carries a change out. -/
def Engine.change (e : Engine) : Engine.Change → Engine
  | .setGate gate => { e with gate }
  | .arm reason => { e with armed := some reason }
  | .setRefusal refuses => { e with refuses }

namespace Store

/-- What can happen to the store at once. -/
inductive Act
  | acquire (pool : Nat) (item : Shared Descriptor) (policy : Policy) (factory : Option Factory)
  | change (holder : Nat) (change : Holder.Change)
  | advance (holder : Nat) (progress : Progress)
  | evict (holder : Nat)
  | reset (holder : Nat)
  | giveBack (holder : Nat) (referred : Bool)
  | setReadyListener (holder : Nat) (listener : Option ReadyListener)
  | reportWindow (holder : Nat) (position : UInt64) (window : Window)
  | openRequest (call : Call)
  | claimTree (call : Call) (item : Shared Descriptor) (component : Component)
      (handle : WeakHandle) (listener : Option MeasureListener)
  | commitLayout (request : Request) (size : Size)
  | confirmLayout (request : Request)
  | writeHeight (handle : WeakHandle) (height : Int32)
  | enterLayout (tree : TreeRef)
  | settleLayout (layout : Layout) (size : Size)
  | enqueue (queue : Nat) (layout : Layout)
  | dequeue (queue : Nat)
  | changeEngine (engine : Nat) (change : Engine.Change)
  | build (engine : Nat) (config : Tree.Config)
  | changeTree (tree : TreeRef) (change : Tree.Change)
  | openGate (gate : Nat)
  | addQueue (queue : Queue)
  | addEngine (name : String) (measure : Measure) (manner : Engine.Manner)
  | addGate
  | addPool (pool : Pool)
  | clearPool (pool : Nat)
  | dropPool (pool : Nat)

/-- Carries an act out. -/
def act (s : Store) : Act → Store
  | .acquire p item policy factory =>
    (s.takeHolder p).1.configure (s.takeHolder p).2.1 item policy factory
  | .change h c => s.modifyState h (·.change c)
  | .advance h p => s.modifyHolder h fun x => { x with progress := x.progress.advance p }
  | .evict h => s.evict h
  | .reset h => s.reset h
  | .giveBack h referred => (s.giveBack h referred).1
  | .setReadyListener h l => s.setReadyListener h l
  | .reportWindow h position w => s.reportWindow h position w
  | .openRequest call => (s.openRequest call).1
  | .claimTree call item component handle listener =>
    (s.claimTree call item component handle listener).1
  | .commitLayout r size => s.commitLayout r size
  | .confirmLayout r => s.confirmLayout r
  | .writeHeight w height => s.writeHeight w height
  | .enterLayout t => (s.enterLayout t).1
  | .settleLayout l size => s.settleLayout l size
  | .enqueue q l => s.enqueue q l
  | .dequeue q => (s.dequeue q).1
  | .changeEngine e c => s.modifyEngine e (·.change c)
  | .build e config => s.modifyEngine e (·.build config)
  | .changeTree t c => s.modifyTree t (·.change c)
  | .openGate g => s.modifyGate g Gate.openUp
  | .addQueue queue => { s with queues := s.queues ++ [queue] }
  | .addEngine name measure manner =>
    { s with engines := s.engines ++ [{ name, measure, manner }] }
  | .addGate => { s with gates := s.gates ++ [{}] }
  | .addPool pool => { s with pools := s.pools ++ [some pool] }
  | .clearPool p => s.modifyPool p Pool.clear
  | .dropPool p => s.dropPool p

/-- Carries acts out one after the other. -/
def acts (s : Store) (as : List Act) : Store := as.foldl act s

@[simp] theorem acts_nil (s : Store) : s.acts [] = s := rfl

@[simp] theorem acts_cons (s : Store) (a : Act) (as : List Act) :
    s.acts (a :: as) = (s.act a).acts as := rfl

theorem acts_append (s : Store) (as bs : List Act) : s.acts (as ++ bs) = (s.acts as).acts bs :=
  List.foldl_append

/-- What every act keeps, every list of acts keeps. -/
theorem acts_induction {P : Store → Prop} (hact : ∀ s a, P s → P (s.act a)) {s : Store}
    (hs : P s) (as : List Act) : P (s.acts as) := by
  induction as generalizing s with
  | nil => exact hs
  | cons a as ih => exact ih (hact s a hs)

/-! ## The parts of a store that an act leaves alone -/

variable (s : Store)

@[simp] theorem holders_modifyEngine (e : Nat) (f : Engine → Engine) :
    (s.modifyEngine e f).holders = s.holders := rfl

@[simp] theorem holders_modifyTree (t : TreeRef) (f : Tree → Tree) :
    (s.modifyTree t f).holders = s.holders := rfl

@[simp] theorem holders_modifyPool (p : Nat) (f : Pool → Pool) :
    (s.modifyPool p f).holders = s.holders := rfl

@[simp] theorem holders_modifyGate (g : Nat) (f : Gate → Gate) :
    (s.modifyGate g f).holders = s.holders := rfl

@[simp] theorem holders_modifyQueue (q : Nat) (f : Queue → Queue) :
    (s.modifyQueue q f).holders = s.holders := rfl

@[simp] theorem engines_modifyHolder (h : Nat) (f : Holder → Holder) :
    (s.modifyHolder h f).engines = s.engines := rfl

@[simp] theorem engines_modifyState (h : Nat) (f : Holder.State → Holder.State) :
    (s.modifyState h f).engines = s.engines := rfl

@[simp] theorem engines_modifyPool (p : Nat) (f : Pool → Pool) :
    (s.modifyPool p f).engines = s.engines := rfl

@[simp] theorem engines_modifyGate (g : Nat) (f : Gate → Gate) :
    (s.modifyGate g f).engines = s.engines := rfl

@[simp] theorem engines_modifyQueue (q : Nat) (f : Queue → Queue) :
    (s.modifyQueue q f).engines = s.engines := rfl

/-! ## Holders -/

/-- The idle holder that the next item of a pool gets, if the pool has one. -/
def offered? (s : Store) (p : Nat) : Option Nat := (s.pool? p).bind fun pool => pool.take.2

/-- A holder's state after its tree was evicted. -/
def evicted (s : Store) (state : Holder.State) : Holder.State :=
  match state.slot.tree? with
  | none => state.invalidate
  | some t =>
    match s.engines[t.engine]?, s.tree? t with
    | some engine, some tree =>
      state.park (if engine.manner.keepsState then some tree.state else none) tree.mounted
    | _, _ => state.park none false

/-- The state of a holder without a tree after a tree was claimed from an engine. -/
def supplied (s : Store) (engine : Nat) (state : Holder.State) : Holder.State :=
  match s.engines[engine]? with
  | none => state
  | some e =>
    if e.refuses then state.takeParked else state.takeParked.adopt ⟨engine, e.trees.length⟩

/-- What an act makes of the holder with a number. -/
def Act.onHolder (s : Store) (k : Nat) (x : Holder) : Act → Holder
  | .acquire p item policy factory =>
    if s.offered? p = some k then { x with state := x.state.configure item policy factory } else x
  | .change h c => if h = k then { x with state := x.state.change c } else x
  | .advance h p => if h = k then { x with progress := x.progress.advance p } else x
  | .evict h => if h = k then { x with state := s.evicted x.state } else x
  | .reset h => if h = k then x.reset else x
  | .setReadyListener h l =>
    if h = k then { x with state := { x.state with readyListener := l } } else x
  | .openRequest call =>
    if call.holder = k ∧ (x.state.item.bind (·.value.component?)).isSome then
      { x with state := x.state.request call.bounds }
    else x
  | .claimTree call _ _ handle _ =>
    if call.holder = k ∧ x.generation = handle.generation ∧ x.state.slot.tree? = none then
      { x with state := s.supplied call.engine x.state }
    else x
  | .commitLayout r size =>
    if r.call.holder = k ∧ x.state.isCurrent r.item r.tree then
      { x with state := x.state.commit size.height }
    else x
  | .confirmLayout r =>
    if r.call.holder = k ∧ x.state.isCurrent r.item r.tree then
      { x with state := { x.state with valid := true } }
    else x
  | .writeHeight w height =>
    if w.holder = k ∧ x.generation = w.generation then
      { x with state := { x.state with height := some height } }
    else x
  | _ => x

/-- An eviction is a matter of the tree alone: everything else a holder keeps. -/
theorem evicted_eq (state : Holder.State) :
    ∃ slot mounted, s.evicted state = { state with slot, mounted, valid := false } := by
  unfold evicted
  split
  · exact ⟨_, _, rfl⟩
  · split <;> exact ⟨_, _, rfl⟩

@[simp] theorem item_evicted (state : Holder.State) : (s.evicted state).item = state.item := by
  obtain ⟨slot, mounted, heq⟩ := s.evicted_eq state
  rw [heq]

@[simp] theorem height_evicted (state : Holder.State) :
    (s.evicted state).height = state.height := by
  obtain ⟨slot, mounted, heq⟩ := s.evicted_eq state
  rw [heq]

@[simp] theorem requested_evicted (state : Holder.State) :
    (s.evicted state).requested = state.requested := by
  obtain ⟨slot, mounted, heq⟩ := s.evicted_eq state
  rw [heq]

@[simp] theorem readyListener_evicted (state : Holder.State) :
    (s.evicted state).readyListener = state.readyListener := by
  obtain ⟨slot, mounted, heq⟩ := s.evicted_eq state
  rw [heq]

@[simp] theorem factory_evicted (state : Holder.State) :
    (s.evicted state).factory = state.factory := by
  obtain ⟨slot, mounted, heq⟩ := s.evicted_eq state
  rw [heq]

@[simp] theorem valid_evicted (state : Holder.State) : (s.evicted state).valid = false := by
  obtain ⟨slot, mounted, heq⟩ := s.evicted_eq state
  rw [heq]

/-- So is a claim. -/
theorem supplied_eq (engine : Nat) (state : Holder.State) :
    ∃ slot, s.supplied engine state = { state with slot } := by
  unfold supplied
  split
  · exact ⟨_, rfl⟩
  · split <;> exact ⟨_, rfl⟩

@[simp] theorem item_supplied (engine : Nat) (state : Holder.State) :
    (s.supplied engine state).item = state.item := by
  obtain ⟨slot, heq⟩ := s.supplied_eq engine state
  rw [heq]

@[simp] theorem height_supplied (engine : Nat) (state : Holder.State) :
    (s.supplied engine state).height = state.height := by
  obtain ⟨slot, heq⟩ := s.supplied_eq engine state
  rw [heq]

@[simp] theorem requested_supplied (engine : Nat) (state : Holder.State) :
    (s.supplied engine state).requested = state.requested := by
  obtain ⟨slot, heq⟩ := s.supplied_eq engine state
  rw [heq]

@[simp] theorem valid_supplied (engine : Nat) (state : Holder.State) :
    (s.supplied engine state).valid = state.valid := by
  obtain ⟨slot, heq⟩ := s.supplied_eq engine state
  rw [heq]

@[simp] theorem readyListener_supplied (engine : Nat) (state : Holder.State) :
    (s.supplied engine state).readyListener = state.readyListener := by
  obtain ⟨slot, heq⟩ := s.supplied_eq engine state
  rw [heq]

@[simp] theorem mounted_supplied (engine : Nat) (state : Holder.State) :
    (s.supplied engine state).mounted = state.mounted := by
  obtain ⟨slot, heq⟩ := s.supplied_eq engine state
  rw [heq]

@[simp] theorem factory_supplied (engine : Nat) (state : Holder.State) :
    (s.supplied engine state).factory = state.factory := by
  obtain ⟨slot, heq⟩ := s.supplied_eq engine state
  rw [heq]

theorem getElem?_modifyHolder (h k : Nat) (f : Holder → Holder) :
    (s.modifyHolder h f).holders[k]? =
      (s.holders[k]?).map fun x => if h = k then f x else x := by
  unfold modifyHolder
  rw [List.getElem?_modify]
  split <;> simp_all

theorem getElem?_modifyState (h k : Nat) (f : Holder.State → Holder.State) :
    (s.modifyState h f).holders[k]? =
      (s.holders[k]?).map fun x => if h = k then { x with state := f x.state } else x :=
  s.getElem?_modifyHolder h k _

theorem takeHolder_of_offered? {p h : Nat} (hp : s.offered? p = some h) :
    s.takeHolder p = (s.modifyPool p (·.take.1), h, true) := by
  rw [offered?] at hp
  rw [takeHolder, hp]

theorem takeHolder_of_not_offered? {p : Nat} (hp : s.offered? p = none) :
    s.takeHolder p = ({ s.modifyPool p (·.take.1) with holders := s.holders ++ [.fresh p] },
      s.holders.length, false) := by
  rw [offered?] at hp
  rw [takeHolder, hp]
  rfl

/-- The holder that an item gets. -/
theorem fst_snd_takeHolder (p : Nat) :
    (s.takeHolder p).2.1 = (s.offered? p).getD s.holders.length := by
  cases hp : s.offered? p with
  | none => rw [s.takeHolder_of_not_offered? hp, Option.getD_none]
  | some h => rw [s.takeHolder_of_offered? hp, Option.getD_some]

theorem getElem?_acquire {k : Nat} {x : Holder} (p : Nat) (item : Shared Descriptor)
    (policy : Policy) (factory : Option Factory) (hx : s.holders[k]? = some x) :
    (s.act (.acquire p item policy factory)).holders[k]? =
      some ((Act.acquire p item policy factory).onHolder s k x) := by
  have hk : k < s.holders.length := (List.getElem?_eq_some_iff.1 hx).1
  rw [act, configure, getElem?_modifyState]
  cases hp : s.offered? p with
  | none => simp [s.takeHolder_of_not_offered? hp, List.getElem?_append_left hk, hx,
      Nat.ne_of_gt hk, Act.onHolder, hp]
  | some h => simp [s.takeHolder_of_offered? hp, hx, Act.onHolder, hp]

theorem getElem?_evict {k : Nat} {x : Holder} (h : Nat) (hx : s.holders[k]? = some x) :
    (s.evict h).holders[k]? =
      some (if h = k then { x with state := s.evicted x.state } else x) := by
  unfold evict
  by_cases hk : h = k
  · subst hk
    simp only [hx, Option.bind_some, evicted, if_true]
    cases x.state.slot.tree? with
    | none => simp [getElem?_modifyState, hx]
    | some t =>
        dsimp only
        cases s.engines[t.engine]? <;> cases s.tree? t <;> simp [getElem?_modifyState, hx]
  · split
    · simp [getElem?_modifyState, hx, hk]
    · split <;> simp [getElem?_modifyState, hx, hk]

theorem getElem?_reset {k : Nat} {x : Holder} (h : Nat) (hx : s.holders[k]? = some x) :
    (s.reset h).holders[k]? = some (if h = k then x.reset else x) := by
  unfold reset
  split <;> simp [getElem?_modifyHolder, hx]

@[simp] theorem holders_giveBack (h : Nat) (referred : Bool) :
    (s.giveBack h referred).1.holders = s.holders := by
  unfold giveBack
  split
  · rfl
  · split
    · rfl
    · split <;> rfl

theorem getElem?_setReadyListener {k : Nat} {x : Holder} (h : Nat) (l : Option ReadyListener)
    (hx : s.holders[k]? = some x) :
    (s.setReadyListener h l).holders[k]? =
      some (if h = k then { x with state := { x.state with readyListener := l } } else x) := by
  unfold setReadyListener
  split <;> simp [getElem?_modifyState, hx]

@[simp] theorem holders_reportWindow (h : Nat) (position : UInt64) (w : Window) :
    (s.reportWindow h position w).holders = s.holders := by
  unfold reportWindow
  split <;> rfl

/-- A request records its constraints unless there is nothing to lay out. -/
theorem fst_openRequest (call : Call) :
    (s.openRequest call).1 =
      if ((s.holders[call.holder]?.bind (·.state.item)).bind (·.value.component?)).isSome then
        s.modifyState call.holder (·.request call.bounds)
      else s := by
  unfold openRequest
  split
  · next h => simp [h]
  · next x h =>
      split
      · next hi => simp [h, hi]
      · next item hi =>
          split
          · next hc => simp [h, hi, hc]
          · next component hc => split <;> simp [h, hi, hc]

theorem getElem?_openRequest {k : Nat} {x : Holder} (call : Call)
    (hx : s.holders[k]? = some x) :
    (s.openRequest call).1.holders[k]? = some ((Act.openRequest call).onHolder s k x) := by
  rw [fst_openRequest, Act.onHolder]
  by_cases hk : call.holder = k
  · subst hk
    rw [hx, Option.bind_some]
    split
    · next h => simp only [getElem?_modifyState, hx, h]; simp
    · next h => simp only [hx, h]; simp
  · split <;> simp [getElem?_modifyState, hx, hk]

/-- A claim changes nothing if the holder was released since the handle was made, has a tree, or
there is no engine. -/
theorem claimTree_of_not_vacant {call : Call} {handle : WeakHandle} (item : Shared Descriptor)
    (component : Component) (listener : Option MeasureListener)
    (h : ∀ x engine, s.holders[call.holder]? = some x → s.engines[call.engine]? = some engine →
      x.generation = handle.generation → x.state.slot.tree? ≠ none) :
    (s.claimTree call item component handle listener).1 = s := by
  unfold claimTree
  split
  · next x engine hx he =>
      split
      · next hg =>
          split
          · rfl
          · next ht => exact absurd ht (h x engine hx he hg)
      · rfl
  · rfl

/-- A claim for a holder that has no tree takes its parked state, and gives it a tree unless the
engine refuses. -/
theorem holders_claimTree_of_vacant {x : Holder} {engine : Engine} {call : Call}
    {handle : WeakHandle} (item : Shared Descriptor) (component : Component)
    (listener : Option MeasureListener) (hx : s.holders[call.holder]? = some x)
    (he : s.engines[call.engine]? = some engine) (hg : x.generation = handle.generation)
    (ht : x.state.slot.tree? = none) :
    (s.claimTree call item component handle listener).1.holders =
      (s.modifyState call.holder (s.supplied call.engine)).holders := by
  unfold claimTree supplied
  simp only [hx, he, ht, if_pos hg]
  split
  · rfl
  · have happly : ∀ (t : Store) (tree : TreeRef), t.holders = (s.modifyState call.holder
        (·.takeParked)).holders → (t.modifyState call.holder (·.adopt tree)).holders =
          (s.modifyState call.holder fun state => state.takeParked.adopt tree).holders := by
      intro t tree h
      apply List.ext_getElem?
      intro k
      rw [getElem?_modifyState, h, getElem?_modifyState, getElem?_modifyState, Option.map_map]
      congr 1
      funext y
      by_cases hk : call.holder = k <;> simp [hk]
    cases x.state.readyListener <;> exact happly _ _ rfl

theorem getElem?_claimTree {k : Nat} {x : Holder} (call : Call) (item : Shared Descriptor)
    (component : Component) (handle : WeakHandle) (listener : Option MeasureListener)
    (hx : s.holders[k]? = some x) :
    (s.claimTree call item component handle listener).1.holders[k]? =
      some ((Act.claimTree call item component handle listener).onHolder s k x) := by
  by_cases h : ∃ y engine, s.holders[call.holder]? = some y ∧
      s.engines[call.engine]? = some engine ∧ y.generation = handle.generation ∧
      y.state.slot.tree? = none
  · obtain ⟨y, engine, hy, he, hg, ht⟩ := h
    rw [s.holders_claimTree_of_vacant item component listener hy he hg ht, getElem?_modifyState,
      hx, Act.onHolder]
    by_cases hk : call.holder = k
    · subst hk
      obtain rfl : x = y := Option.some.inj (hx.symm.trans hy)
      simp [hg, ht]
    · simp [hk]
  · rw [s.claimTree_of_not_vacant item component listener
      fun y engine hy he hg ht => h ⟨y, engine, hy, he, hg, ht⟩, hx, Act.onHolder]
    split
    · next hk =>
        obtain ⟨rfl, hg, ht⟩ := hk
        cases he : s.engines[call.engine]? with
        | none => simp [supplied, he]
        | some engine => exact absurd ⟨x, engine, hx, he, hg, ht⟩ h
    · rfl

theorem isCurrent_eq {r : Request} {x : Holder} (hx : s.holders[r.call.holder]? = some x) :
    s.isCurrent r = x.state.isCurrent r.item r.tree := by
  simp [isCurrent, hx]

theorem getElem?_commitLayout {k : Nat} {x : Holder} (r : Request) (size : Size)
    (hx : s.holders[k]? = some x) :
    (s.commitLayout r size).holders[k]? = some ((Act.commitLayout r size).onHolder s k x) := by
  simp only [commitLayout, Act.onHolder]
  by_cases hk : r.call.holder = k
  · subst hk
    rw [s.isCurrent_eq hx]
    split <;> simp_all [getElem?_modifyState]
  · split <;> simp [getElem?_modifyState, hx, hk]

theorem getElem?_confirmLayout {k : Nat} {x : Holder} (r : Request)
    (hx : s.holders[k]? = some x) :
    (s.confirmLayout r).holders[k]? = some ((Act.confirmLayout r).onHolder s k x) := by
  simp only [confirmLayout, Act.onHolder]
  by_cases hk : r.call.holder = k
  · subst hk
    rw [s.isCurrent_eq hx]
    split <;> simp_all [getElem?_modifyState]
  · split <;> simp [getElem?_modifyState, hx, hk]

theorem isOfGeneration_eq {w : WeakHandle} {x : Holder} (hx : s.holders[w.holder]? = some x) :
    s.isOfGeneration w = decide (x.generation = w.generation) := by
  simp [isOfGeneration, hx]

theorem getElem?_writeHeight {k : Nat} {x : Holder} (w : WeakHandle) (height : Int32)
    (hx : s.holders[k]? = some x) :
    (s.writeHeight w height).holders[k]? = some ((Act.writeHeight w height).onHolder s k x) := by
  simp only [writeHeight, Act.onHolder]
  by_cases hk : w.holder = k
  · subst hk
    rw [s.isOfGeneration_eq hx]
    split <;> simp_all [getElem?_modifyState]
  · split <;> simp [getElem?_modifyState, hx, hk]

@[simp] theorem holders_enterLayout (t : TreeRef) : (s.enterLayout t).1.holders = s.holders := by
  unfold enterLayout
  split
  · split
    · rfl
    · split
      · rfl
      · split <;> rfl
  · rfl

@[simp] theorem holders_dequeue (q : Nat) : (s.dequeue q).1.holders = s.holders := by
  unfold dequeue
  split <;> rfl

/-- What an act makes of the holders that are there. -/
theorem holders_act (a : Act) {k : Nat} {x : Holder} (hx : s.holders[k]? = some x) :
    (s.act a).holders[k]? = some (a.onHolder s k x) := by
  cases a with
  | acquire p item policy factory => exact s.getElem?_acquire p item policy factory hx
  | change h c => simp [act, Act.onHolder, getElem?_modifyState, hx]
  | advance h p => simp [act, Act.onHolder, getElem?_modifyHolder, hx]
  | evict h => exact s.getElem?_evict h hx
  | reset h => exact s.getElem?_reset h hx
  | giveBack h referred => simpa [act, Act.onHolder] using hx
  | setReadyListener h l => exact s.getElem?_setReadyListener h l hx
  | reportWindow h position w => simpa [act, Act.onHolder] using hx
  | openRequest call => exact s.getElem?_openRequest call hx
  | claimTree call item component handle listener =>
      exact s.getElem?_claimTree call item component handle listener hx
  | commitLayout r size => exact s.getElem?_commitLayout r size hx
  | confirmLayout r => exact s.getElem?_confirmLayout r hx
  | writeHeight w height => exact s.getElem?_writeHeight w height hx
  | enterLayout t => simpa [act, Act.onHolder] using hx
  | dequeue q => simpa [act, Act.onHolder] using hx
  | settleLayout l size => simpa [act, settleLayout, Act.onHolder] using hx
  | enqueue q l => simpa [act, enqueue, Act.onHolder] using hx
  | changeEngine e c => simpa [act, Act.onHolder] using hx
  | build e config => simpa [act, Act.onHolder] using hx
  | changeTree t c => simpa [act, Act.onHolder] using hx
  | openGate g => simpa [act, Act.onHolder] using hx
  | addQueue queue => simpa [act, Act.onHolder] using hx
  | addEngine name measure manner => simpa [act, Act.onHolder] using hx
  | addGate => simpa [act, Act.onHolder] using hx
  | addPool pool => simpa [act, Act.onHolder] using hx
  | clearPool p => simpa [act, Act.onHolder] using hx
  | dropPool p => simpa [act, dropPool, Act.onHolder] using hx

/-- Only an item that acquires a holder may add one. -/
theorem length_act {a : Act} (ha : ∀ p item policy factory, a ≠ .acquire p item policy factory) :
    (s.act a).holders.length = s.holders.length := by
  have hmodify (t : Store) (h : Nat) (f : Holder → Holder) :
      (t.modifyHolder h f).holders.length = t.holders.length := by simp [modifyHolder]
  cases a with
  | acquire p item policy factory => exact absurd rfl (ha p item policy factory)
  | change h c => exact hmodify _ _ _
  | advance h p => exact hmodify _ _ _
  | evict h =>
      simp only [act, evict]
      split
      · exact hmodify _ _ _
      · split <;> exact hmodify _ _ _
  | reset h =>
      simp only [act, reset]
      split <;> exact hmodify _ _ _
  | setReadyListener h l =>
      simp only [act, setReadyListener]
      split <;> exact hmodify _ _ _
  | openRequest call =>
      rw [act, fst_openRequest]
      split
      · exact hmodify _ _ _
      · rfl
  | claimTree call item component handle listener =>
      by_cases h : ∃ y engine, s.holders[call.holder]? = some y ∧
          s.engines[call.engine]? = some engine ∧ y.generation = handle.generation ∧
          y.state.slot.tree? = none
      · obtain ⟨y, engine, hy, he, hg, ht⟩ := h
        rw [act, s.holders_claimTree_of_vacant item component listener hy he hg ht]
        exact hmodify _ _ _
      · rw [act, s.claimTree_of_not_vacant item component listener
          fun y engine hy he hg ht => h ⟨y, engine, hy, he, hg, ht⟩]
  | commitLayout r size =>
      simp only [act, commitLayout]
      split
      · exact hmodify _ _ _
      · rfl
  | confirmLayout r =>
      simp only [act, confirmLayout]
      split
      · exact hmodify _ _ _
      · rfl
  | writeHeight w height =>
      simp only [act, writeHeight]
      split
      · exact hmodify _ _ _
      · rfl
  | _ => simp [act, settleLayout, enqueue, dropPool]

theorem getElem?_act_of_none {a : Act} {k : Nat}
    (ha : ∀ p item policy factory, a ≠ .acquire p item policy factory)
    (hk : s.holders[k]? = none) : (s.act a).holders[k]? = none := by
  rwa [List.getElem?_eq_none_iff, s.length_act ha, ← List.getElem?_eq_none_iff]

theorem length_acquire (p : Nat) (item : Shared Descriptor) (policy : Policy)
    (factory : Option Factory) :
    (s.act (.acquire p item policy factory)).holders.length =
      s.holders.length + if (s.offered? p).isSome then 0 else 1 := by
  rw [act, configure, modifyState, modifyHolder]
  cases hp : s.offered? p with
  | none => simp [s.takeHolder_of_not_offered? hp]
  | some h => simp [s.takeHolder_of_offered? hp]

/-- No act takes a holder away. -/
theorem length_le_act (a : Act) : s.holders.length ≤ (s.act a).holders.length := by
  by_cases ha : ∃ p item policy factory, a = .acquire p item policy factory
  · obtain ⟨p, item, policy, factory, rfl⟩ := ha
    rw [length_acquire]
    exact Nat.le_add_right _ _
  · exact Nat.le_of_eq (s.length_act fun p item policy factory h =>
      ha ⟨p, item, policy, factory, h⟩).symm

/-- A holder that an act adds is a new one with the next number, and the item has it already. -/
theorem of_getElem?_act {a : Act} {k : Nat} {x : Holder} (hk : s.holders[k]? = none)
    (hx : (s.act a).holders[k]? = some x) :
    ∃ p item policy factory, a = .acquire p item policy factory ∧ s.offered? p = none ∧
      k = s.holders.length ∧
      x = { Holder.fresh p with state := ({} : Holder.State).configure item policy factory } := by
  have hlt : k < (s.act a).holders.length := (List.getElem?_eq_some_iff.1 hx).1
  rw [List.getElem?_eq_none_iff] at hk
  by_cases ha : ∃ p item policy factory, a = .acquire p item policy factory
  · obtain ⟨p, item, policy, factory, rfl⟩ := ha
    rw [length_acquire] at hlt
    cases hp : s.offered? p with
    | some h =>
        rw [hp, Option.isSome_some, if_pos rfl] at hlt
        omega
    | none =>
        rw [hp, Option.isSome_none, if_neg Bool.false_ne_true] at hlt
        obtain rfl : k = s.holders.length := by omega
        refine ⟨p, item, policy, factory, rfl, hp, rfl, ?_⟩
        rw [act, configure, getElem?_modifyState, s.takeHolder_of_not_offered? hp] at hx
        simpa [Holder.fresh, eq_comm] using hx
  · rw [s.length_act fun p item policy factory h => ha ⟨p, item, policy, factory, h⟩] at hlt
    omega

end Store

end Recycler

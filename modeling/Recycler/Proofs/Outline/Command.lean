import Recycler.Proofs.Outline.Session

/-!
# Commands on outlines

A command does the same to a session and to its outline, unless it arms the engine that is not armed
there. Both are in the same trouble, if they are in any.
-/

namespace Recycler.Session

variable {E : Option Nat} {s : Session} {i : Nat} {α : Type}

/-- Two commands that look the same up come to the same session, if they do so with what they
find. -/
theorem map_bind_congr {x : Except Trouble α} {f f' : α → Except Trouble Session}
    {g g' : Session → Session} (h : ∀ a, x = .ok a → (f' a).map g' = (f a).map g) :
    (x >>= f').map g' = (x >>= f).map g := by
  cases x with
  | error t => rfl
  | ok a => exact h a rfl

theorem map_pure_congr {t t' : Session} {g g' : Session → Session} (h : g' t' = g t) :
    (pure t' : Except Trouble Session).map g' = (pure t : Except Trouble Session).map g :=
  congrArg Except.ok h

theorem makeItem_outline (into : String) (source : Source) (settings : List Descriptor.Setting) :
    ((s.outline E).makeItem i into source settings).map (outline none) =
      (s.makeItem i into source settings).map (outline E) := by
  unfold makeItem
  exact map_bind_congr fun content _ => map_pure_congr (by simp)

theorem renderSection_outline (component : Diff String) (sticky : Diff Bool)
    (spanSize : Diff UInt32) (fullSpan : Diff Bool) (context : Section.Context) (into : Target) :
    ((s.outline E).renderSection i component sticky spanSize fullSpan context into).map
        (outline none) =
      (s.renderSection i component sticky spanSize fullSpan context into).map (outline E) := by
  unfold renderSection
  refine map_bind_congr fun previous _ => map_bind_congr fun next _ => ?_
  simp only [issuedItems_outline, allocations_outline]
  generalize Section.render _ _ _ _ = outcome
  have hrendered : { (s.outline E).write outcome.log with
        allocations := s.allocations + 1 }.outline none =
      { s.write outcome.log with allocations := s.allocations + 1 }.outline E := by
    simp [outline, write, Function.comp_def, Thread.silent]
  split
  · exact map_pure_congr (outline_fill hrendered fun name => by simp [hrendered])
  · exact map_pure_congr (by simp [hrendered])

theorem makeExecutor_outline (into : String) (style : Executor.Style) :
    ((s.outline E).makeExecutor i into style).outline none =
      (s.makeExecutor i into style).outline E := by
  have hqueue (queue : Queue) :
      (s.modifyStore fun store => { store with queues := store.queues ++ [queue] }).outline E =
        (s.outline E).modifyStore fun store => { store with queues := store.queues ++ [queue] } :=
    outline_modifyStore (by cases E <;> rfl)
  unfold makeExecutor
  cases style <;> simp [hqueue]

theorem runWaiting_outline (executor : String) (count : Option Nat) :
    ((s.outline E).runWaiting i executor count).map (outline none) =
      (s.runWaiting i executor count).map (outline E) := by
  unfold runWaiting
  rw [manualQueue_outline]
  exact map_bind_congr fun q _ => map_pure_congr (by simp)

theorem spawn_outline (c : Command) (into : Target) :
    ((s.outline E).spawn i c into).outline none = (s.spawn i c into).outline E := by
  unfold spawn
  rw [← outline_start, length_threads_outline]
  exact outline_fill (by simp) fun name => by simp

theorem join_outline (job : String) :
    ((s.outline E).join i job).map (outline none) = (s.join i job).map (outline E) := by
  unfold join
  refine map_bind_congr fun j _ => ?_
  rw [getElem?_threads_outline]
  cases s.threads[j]? with
  | none => rfl
  | some t => exact map_pure_congr (by simp)

theorem makeEngine_outline (into : String) (measure : Measure) (manner : Engine.Manner) :
    ((s.outline E).makeEngine i into measure manner).outline none =
      (s.makeEngine i into measure manner).outline E := by
  have hengine : (s.modifyStore fun store => { store with
        engines := store.engines ++ [{ name := into, measure, manner }] }).outline E =
      (s.outline E).modifyStore fun store => { store with
        engines := store.engines ++ [{ name := into, measure, manner }] } :=
    outline_modifyStore (Store.addEngine_unarm _ rfl)
  unfold makeEngine
  simp [hengine]

theorem makeGate_outline (into : String) :
    ((s.outline E).makeGate i into).outline none = (s.makeGate i into).outline E := by
  have hgate : (s.modifyStore fun store => { store with gates := store.gates ++ [{}] }).outline E =
      (s.outline E).modifyStore fun store => { store with gates := store.gates ++ [{}] } :=
    outline_modifyStore (by cases E <;> rfl)
  unfold makeGate
  simp [hgate]

theorem setGate_outline (gate : Option String) (engine : String) :
    ((s.outline E).setGate i gate engine).map (outline none) =
      (s.setGate i gate engine).map (outline E) := by
  unfold setGate
  refine map_bind_congr fun g _ => map_bind_congr fun e _ => map_pure_congr ?_
  have hset : (s.modifyStore (·.modifyEngine e ({ · with gate := g }))).outline E =
      (s.outline E).modifyStore (·.modifyEngine e ({ · with gate := g })) :=
    outline_modifyStore (Store.modifyEngine_unarm e fun _ _ => rfl)
  simp [hset]

theorem openGate_outline (name : String) :
    ((s.outline E).openGate i name).map (outline none) = (s.openGate i name).map (outline E) := by
  unfold openGate
  exact map_bind_congr fun g _ => map_pure_congr (by simp [outline_modifyStore])

theorem viewGate_outline (name : String) :
    ((s.outline E).viewGate i name).map (outline none) = (s.viewGate i name).map (outline E) := by
  unfold viewGate
  refine map_bind_congr fun g _ => ?_
  rw [store_outline, Store.gates_unarm]
  exact map_bind_congr fun gate _ => map_pure_congr (by simp)

/-- Arming an engine that is not armed is another matter. -/
theorem performOnEngine_outline (name : String) (c : EngineCommand)
    (h : ∀ e reason, s.engine name = .ok e → c = .arm reason → E ≠ some e) :
    ((s.outline E).performOnEngine i name c).map (outline none) =
      (s.performOnEngine i name c).map (outline E) := by
  have hchange (t : Session) {e : Nat} {f : Engine → Engine}
      (hf : ∀ x : Engine, E = some e → f x.disarm = (f x).disarm) :
      (t.modifyStore (·.modifyEngine e f)).outline E =
        (t.outline E).modifyStore (·.modifyEngine e f) :=
    outline_modifyStore (Store.modifyEngine_unarm e hf)
  unfold performOnEngine
  refine map_bind_congr fun e he => ?_
  cases c with
  | view =>
      simp only [store_outline, Store.getElem?_engines_unarm]
      cases s.store.engines[e]? with
      | none => rfl
      | some x => exact map_pure_congr (by simp)
  | arm reason =>
      have hne := h e reason he rfl
      refine map_pure_congr ?_
      rw [outline_answer, outline_answer, hchange _ fun _ hE => absurd hE hne]
      simp
  | refuseNext =>
      simp only [store_outline, Store.getElem?_engines_unarm]
      cases s.store.engines[e]? with
      | none => rfl
      | some x =>
          simp only [Option.map_some, need, bind, Except.bind, Engine.manner_disarmIn]
          split
          · refine map_pure_congr ?_
            rw [outline_answer, outline_answer, hchange]
            · simp
            · exact fun _ _ => rfl
          · rfl
  | viewContext tag => exact map_pure_congr (by simp)
  | build component settings snapshot clipsChildren wasMounted listener =>
      refine map_bind_congr fun root _ => map_bind_congr fun policy _ => ?_
      unfold buildTree
      rw [store_outline, Store.getElem?_engines_unarm]
      cases s.store.engines[e]? with
      | none => rfl
      | some x =>
          simp only [Option.map_some, need, bind, Except.bind, Engine.refuses_disarmIn]
          split
          · refine map_pure_congr ?_
            rw [outline_panic, outline_panic, hchange]
            · simp [reportBuilding_outline]
            · exact fun _ _ => rfl
          · refine map_pure_congr ?_
            rw [outline_answer, outline_answer, hchange]
            · simp [reportBuilding_outline]
            · exact fun _ _ => rfl

theorem layoutTree_outline (bounds : Bounds) (component : String) (props : Option (Shared Props))
    (engine : String) (index : Option Nat) (background : Bool) :
    ((s.outline E).layoutTree i bounds component props engine index background).map (outline none) =
      (s.layoutTree i bounds component props engine index background).map (outline E) := by
  unfold layoutTree
  refine map_bind_congr fun root _ => ?_
  rw [treeRef_outline]
  refine map_bind_congr fun tree _ => ?_
  split
  · refine map_pure_congr ?_
    rw [← handOver_outline, ← handOver_outline, outline_answer, outline_answer, outline_outline]
  · exact map_pure_congr (by simp)

theorem performOnTree_outline (engine : String) (index : Option Nat) (c : TreeCommand) :
    ((s.outline E).performOnTree i engine index c).map (outline none) =
      (s.performOnTree i engine index c).map (outline E) := by
  unfold performOnTree
  rw [treeRef_outline]
  refine map_bind_congr fun t _ => ?_
  rw [store_outline, Store.tree?_unarm]
  refine map_bind_congr fun tree _ => ?_
  cases c <;> exact map_pure_congr (by simp [outline_modifyStore])

theorem makePool_outline (into : String) (capacity : UInt64) :
    ((s.outline E).makePool i into capacity).outline none =
      (s.makePool i into capacity).outline E := by
  have hadd (t : Session) (pool : Pool) :
      (t.modifyStore fun store => { store with pools := store.pools ++ [some pool] }).outline E =
        (t.outline E).modifyStore fun store => { store with pools := store.pools ++ [some pool] } :=
    outline_modifyStore (by cases E <;> rfl)
  unfold makePool
  cases Pool.new? capacity with
  | none => simp
  | some pool =>
      rw [registers_outline]
      cases s.registers.pools.get? into with
      | none => simp [hadd]
      | some p =>
          have hdrop : (s.modifyStore (·.dropPool p)).outline E =
              (s.outline E).modifyStore (·.dropPool p) := outline_modifyStore (by simp)
          dsimp only
          rw [← hdrop]
          simp [hadd]

theorem dropPool_outline (name : String) :
    ((s.outline E).dropPool i name).outline none = (s.dropPool i name).outline E := by
  unfold dropPool
  rw [registers_outline]
  cases s.registers.pools.get? name <;> simp [outline_modifyStore]

theorem usePool_outline (name : String) :
    (s.outline E).usePool name = (s.usePool name).map fun (t, p) => (t.outline E, p) := by
  unfold usePool
  rw [pool_outline]
  cases s.pool name <;> rfl

theorem acquire_outline (item : String) (settings : List (Policy.Setting String))
    (factory : Option Factory) (pool : String) (into : Target) :
    ((s.outline E).acquire i item settings factory pool into).map (outline none) =
      (s.acquire i item settings factory pool into).map (outline E) := by
  unfold acquire
  refine map_bind_congr fun item _ => map_bind_congr fun policy _ => ?_
  rw [usePool_outline]
  cases s.usePool pool with
  | error trouble => rfl
  | ok tp =>
      obtain ⟨t, p⟩ := tp
      simp only [Except.map, bind, Except.bind, store_outline, Store.takeHolder_unarm]
      rw [outline_withStore (Store.configure_unarm _ _ _ _)]
      exact map_pure_congr (outline_fill (by simp) fun name => by simp)

theorem performOnPool_outline (name : String) (c : PoolCommand) :
    ((s.outline E).performOnPool i name c).map (outline none) =
      (s.performOnPool i name c).map (outline E) := by
  unfold performOnPool
  rw [usePool_outline]
  cases s.usePool name with
  | error trouble => rfl
  | ok tp =>
      obtain ⟨t, p⟩ := tp
      cases c with
      | view =>
          simp only [Except.map, bind, Except.bind, store_outline, Store.pool?_unarm]
          cases t.store.pool? p with
          | none => rfl
          | some pool => exact map_pure_congr (by simp)
      | clear => exact map_pure_congr (by simp [outline_modifyStore])

theorem requestLayout_outline (bounds : Bounds) (engine tag handle : String) (background : Bool) :
    ((s.outline E).requestLayout i bounds engine tag handle background).map (outline none) =
      (s.requestLayout i bounds engine tag handle background).map (outline E) := by
  unfold requestLayout
  exact map_bind_congr fun e _ => map_bind_congr fun h _ => map_pure_congr (by simp)

theorem performOnHolder_outline (name : String) (c : HolderCommand) :
    ((s.outline E).performOnHolder i name c).map (outline none) =
      (s.performOnHolder i name c).map (outline E) := by
  unfold performOnHolder
  refine map_bind_congr fun h _ => ?_
  cases c with
  | describe item =>
      exact map_bind_congr fun item _ => map_pure_congr (by simp [update, outline_modifyStore])
  | print =>
      rw [store_outline, Store.holders_unarm]
      exact map_bind_congr fun x _ => map_pure_congr (by simp)
  | downgrade into =>
      rw [store_outline, Store.holders_unarm]
      exact map_bind_congr fun x _ => map_pure_congr (by simp)
  | _ => exact map_pure_congr (by simp [update, release, outline_modifyStore])

theorem dropHandle_outline (name : String) :
    ((s.outline E).dropHandle i name).outline none = (s.dropHandle i name).outline E := by
  unfold dropHandle
  simp

theorem upgrade_outline (weak : String) (into : Option Target) :
    ((s.outline E).upgrade i weak into).map (outline none) =
      (s.upgrade i weak into).map (outline E) := by
  unfold upgrade
  refine map_bind_congr fun w _ => ?_
  rw [resolve?_outline]
  cases s.resolve? w with
  | none => exact map_pure_congr (by simp)
  | some h =>
      simp only [showHolder_outline]
      cases into with
      | none => exact map_pure_congr (by simp)
      | some target => exact map_pure_congr (outline_fill (by simp) fun name => by simp)

theorem writeHeight_outline (weak : String) (height : Int32) :
    ((s.outline E).writeHeight i weak height).map (outline none) =
      (s.writeHeight i weak height).map (outline E) := by
  unfold writeHeight
  refine map_bind_congr fun w _ => ?_
  rw [resolve?_outline]
  cases s.resolve? w with
  | none => exact map_pure_congr (by simp)
  | some h => exact map_pure_congr (by simp [outline_modifyStore])

theorem perform_outline (c : Command)
    (h : ∀ name e reason, s.engine name = .ok e → c = .onEngine name (.arm reason) → E ≠ some e) :
    ((s.outline E).perform i c).map (outline none) = (s.perform i c).map (outline E) := by
  cases c with
  | component into name equivalence => exact map_pure_congr (by simp)
  | item into source settings => exact makeItem_outline ..
  | «section» component sticky spanSize fullSpan context into => exact renderSection_outline ..
  | executor into style => exact map_pure_congr (makeExecutor_outline ..)
  | runWaiting executor count => exact runWaiting_outline ..
  | engine into measure manner => exact map_pure_congr (makeEngine_outline ..)
  | onEngine engine c =>
      exact performOnEngine_outline engine c fun e reason he hc => h engine e reason he (by rw [hc])
  | gate into => exact map_pure_congr (makeGate_outline ..)
  | setGate gate engine => exact setGate_outline ..
  | openGate gate => exact openGate_outline ..
  | viewGate gate => exact viewGate_outline ..
  | pool into capacity => exact map_pure_congr (makePool_outline ..)
  | onPool pool c => exact performOnPool_outline ..
  | dropPool pool => exact map_pure_congr (dropPool_outline ..)
  | acquire item settings factory pool into => exact acquire_outline ..
  | layout bounds engine tag handle background => exact requestLayout_outline ..
  | onHolder handle c => exact performOnHolder_outline ..
  | dropHandle handle => exact map_pure_congr (dropHandle_outline ..)
  | upgrade weak into => exact upgrade_outline ..
  | writeHeight weak height => exact writeHeight_outline ..
  | layoutTree bounds component props engine index background => exact layoutTree_outline ..
  | onTree engine index c => exact performOnTree_outline ..
  | spawn c into => exact map_pure_congr (spawn_outline ..)
  | join job => exact join_outline ..
  | panic message => exact map_pure_congr (by simp)
  | malformed registers field =>
      show (throw _ : Except Trouble Session).map _ = (throw _ : Except Trouble Session).map _
      rw [blame_outline]
      rfl

theorem stepCommand_outline (c : Command)
    (h : ∀ name e reason, s.engine name = .ok e → c = .onEngine name (.arm reason) → E ≠ some e) :
    ((s.outline E).stepCommand i c).outline none = (s.stepCommand i c).outline E := by
  have hp := perform_outline (i := i) c h
  unfold stepCommand
  cases hs : s.perform i c with
  | error trouble =>
      cases ht : (s.outline E).perform i c with
      | error trouble' => simp
      | ok t =>
          rw [hs, ht] at hp
          cases hp
  | ok u =>
      cases ht : (s.outline E).perform i c with
      | error trouble' =>
          rw [hs, ht] at hp
          cases hp
      | ok t =>
          rw [hs, ht] at hp
          exact Except.ok.inj hp

end Recycler.Session

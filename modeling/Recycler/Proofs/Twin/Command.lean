import Recycler.Proofs.Twin.Session

/-!
# Commands in twin sessions

A command does the same in twin sessions, or is in the same trouble. It is about the holders in the
registers, and finds others through weak handles, which have to be `Faithful`: they resolve to
holders that stand for each other. A command by which an item acquires a holder makes a new pair and
is left out here.
-/

namespace Recycler.Session

variable {ρ : Renaming} {P : Nat → Prop} {s s' : Session} {i k : Nat} {α β : Type}

/-- Two outcomes of a command: twins, or the same trouble. -/
inductive Both (ρ : Renaming) (P : Nat → Prop) :
    Except Trouble Session → Except Trouble Session → Prop
  | ok {s s' : Session} (h : s.Twin ρ P s') : Both ρ P (.ok s) (.ok s')
  | error (t : Trouble) : Both ρ P (.error t) (.error t)

/-- A weak handle and the one that stands for it resolve to holders that stand for each other. -/
def Faithful (ρ : Renaming) (P : Nat → Prop) (s s' : Session) (w : WeakHandle) : Prop :=
  s'.resolve? (ρ.handle w) = (s.resolve? w).map ρ.holder ∧ ∀ k, s.resolve? w = some k → P k

theorem Both.bind {x : Except Trouble α} {f f' : α → Except Trouble Session}
    (hf : ∀ a, x = .ok a → Both ρ P (f a) (f' a)) : Both ρ P (x >>= f) (x >>= f') := by
  cases x with
  | error t => exact .error t
  | ok a => exact hf a rfl

theorem Both.bind_map {x : Except Trouble α} {g : α → β} {f : α → Except Trouble Session}
    {f' : β → Except Trouble Session} (hf : ∀ a, x = .ok a → Both ρ P (f a) (f' (g a))) :
    Both ρ P (x >>= f) (x.map g >>= f') := by
  cases x with
  | error t => exact .error t
  | ok a => exact hf a rfl

/-- A register that names no holder is filled in both. -/
theorem Twin.register (h : s.Twin ρ P s') (i : Nat) {f : Registers → Registers}
    (hf : ∀ r, f (r.rename ρ) = (f r).rename ρ) :
    ((s.modifyRegisters f).answer i .done).Twin ρ P ((s'.modifyRegisters f).answer i .done) :=
  (h.modifyRegisters hf).say i .done

/-! ## Commands about items, executors and threads -/

theorem Twin.makeComponent (h : s.Twin ρ P s') (into name : String) (equivalence : Equivalence) :
    (s.makeComponent into name equivalence).Twin ρ P (s'.makeComponent into name equivalence) :=
  { h with
    registers := by
      unfold Session.makeComponent
      rw [h.registers, h.issuedComponents]
      rfl
    issuedComponents := by
      unfold Session.makeComponent
      rw [h.issuedComponents] }

theorem Twin.issueItem (h : s.Twin ρ P s') (into : String) (item : Shared Descriptor) :
    (s.issueItem into item).Twin ρ P (s'.issueItem into item) :=
  { h with
    registers := by
      unfold Session.issueItem
      rw [h.registers]
      rfl
    issuedItems := by
      unfold Session.issueItem
      rw [h.issuedItems] }

theorem Twin.makeItem (h : s.Twin ρ P s') (into : String) (source : Source)
    (settings : List Descriptor.Setting) :
    Both ρ P (s.makeItem i into source settings) (s'.makeItem i into source settings) := by
  have hcontent : s'.content source = s.content source := by
    unfold Session.content
    rw [h.component]
  unfold Session.makeItem
  rw [hcontent, h.issuedItems]
  exact .bind fun content _ => .ok ((h.issueItem into _).say i _)

theorem Twin.renderSection (h : s.Twin ρ P s') (component : Diff String) (sticky : Diff Bool)
    (spanSize : Diff UInt32) (fullSpan : Diff Bool) (context : Section.Context) (into : Target) :
    Both ρ P (s.renderSection i component sticky spanSize fullSpan context into)
      (s'.renderSection i component sticky spanSize fullSpan context into) := by
  unfold Session.renderSection
  rw [h.sideComponent, h.issuedItems, h.allocations]
  refine .bind fun previous _ => .bind fun next _ => ?_
  have hrendered (lines : List Log) :
      { s.write lines with allocations := s.allocations + 1 }.Twin ρ P
        { s'.write lines with allocations := s.allocations + 1 } := { h with allocations := rfl }
  dsimp only
  generalize Section.render _ _ _ _ = outcome
  replace hrendered := hrendered outcome.log
  split
  · exact .ok (hrendered.fill i fun name => (hrendered.issueItem name _).say i _)
  · exact .ok (hrendered.say i _)

theorem Twin.makeExecutor (h : s.Twin ρ P s') (into : String) (style : Executor.Style) :
    (s.makeExecutor i into style).Twin ρ P (s'.makeExecutor i into style) := by
  have hregister {t t' : Session} (ht : t.Twin ρ P t') (e : Executor) :
      ((t.modifyRegisters fun r => { r with executors := r.executors.put into e }).answer i
        .done).Twin ρ P
      ((t'.modifyRegisters fun r => { r with executors := r.executors.put into e }).answer i
        .done) := by
    refine ht.register i ?_
    exact fun _ => rfl
  unfold Session.makeExecutor
  rw [h.store.queues]
  cases style with
  | inline => exact hregister h _
  | manual => exact hregister (h.act (a := .addQueue ⟨into, false, []⟩) nofun) _
  | worker =>
      exact hregister (Twin.start (h.act (a := .addQueue ⟨into, true, []⟩) nofun)
        [.serve s.store.queues.length]) _

theorem Twin.runWaiting (h : s.Twin ρ P s') (executor : String) (count : Option Nat) :
    Both ρ P (s.runWaiting i executor count) (s'.runWaiting i executor count) := by
  unfold Session.runWaiting
  rw [h.manualQueue]
  exact .bind fun q _ => .ok (h.push i [.runWaiting q count 0])

theorem Twin.spawn (h : s.Twin ρ P s') (c : Command) (into : Target) :
    (s.spawn i c into).Twin ρ P (s'.spawn i c into) := by
  have hstarted := h.start [.command c, .conclude]
  unfold Session.spawn
  rw [h.count]
  refine hstarted.fill i fun name => hstarted.register i ?_
  exact fun _ => rfl

theorem Twin.join (h : s.Twin ρ P s') (job : String) :
    Both ρ P (s.join i job) (s'.join i job) := by
  unfold Session.join
  rw [h.job]
  refine .bind fun j _ => ?_
  have ht := h.threads j
  revert ht
  cases s.threads[j]? <;> cases s'.threads[j]? <;> intro ht <;> cases ht
  · exact .error _
  · next t t' ht =>
      refine .ok (h.answer i ?_)
      rw [ht.stack, List.isEmpty_map]
      split
      · exact .finished ht.reply
      · exact .refl _

/-! ## Commands about engines, gates and trees -/

theorem Twin.makeEngine (h : s.Twin ρ P s') (into : String) (measure : Measure)
    (manner : Engine.Manner) :
    (s.makeEngine i into measure manner).Twin ρ P (s'.makeEngine i into measure manner) := by
  have hlength : s'.store.engines.length = s.store.engines.length := by
    rw [h.store.engines, List.length_map]
  have hadded := h.act (a := .addEngine into measure manner) nofun
  unfold Session.makeEngine
  rw [hlength]
  refine hadded.register i ?_
  exact fun _ => rfl

theorem Twin.makeGate (h : s.Twin ρ P s') (into : String) :
    (s.makeGate i into).Twin ρ P (s'.makeGate i into) := by
  have hadded := h.act (a := .addGate) nofun
  unfold Session.makeGate
  rw [h.store.gates]
  refine hadded.register i ?_
  exact fun _ => rfl

theorem Twin.setGate (h : s.Twin ρ P s') (gate : Option String) (engine : String) :
    Both ρ P (s.setGate i gate engine) (s'.setGate i gate engine) := by
  unfold Session.setGate
  rw [h.gate, h.engine]
  refine .bind fun gate _ => .bind fun e _ => .ok ?_
  exact (h.act (a := .changeEngine e (.setGate gate)) nofun).say i .done

theorem Twin.openGate (h : s.Twin ρ P s') (name : String) :
    Both ρ P (s.openGate i name) (s'.openGate i name) := by
  unfold Session.openGate
  rw [h.gate]
  exact .bind fun g _ => .ok ((h.act (a := .openGate g) nofun).say i .done)

theorem Twin.viewGate (h : s.Twin ρ P s') (name : String) :
    Both ρ P (s.viewGate i name) (s'.viewGate i name) := by
  unfold Session.viewGate
  rw [h.gate, h.store.gates]
  exact .bind fun g _ => .bind fun gate _ => .ok (h.say i _)

theorem Twin.reportBuilding (h : s.Twin ρ P s') (e : Nat) (c : Tree.Config) :
    (s.reportBuilding e c).Twin ρ P (s'.reportBuilding e (c.rename ρ)) := by
  unfold Session.reportBuilding
  rw [h.store.engine]
  cases s.store.engines[e]? with
  | none => exact h
  | some engine =>
      simp only [Option.map_some, Engine.rename]
      split
      · exact h.report (.building _ ρ c)
      · exact h

theorem need_map (field : String) (o : Option α) (g : α → β) :
    need field (o.map g) = (need field o).map g := by
  cases o <;> rfl

theorem releasedTrees_rename (e : Engine) : (e.rename ρ).releasedTrees = e.releasedTrees := by
  unfold Engine.releasedTrees Engine.rename
  rw [List.countP_map]
  rfl

theorem Twin.buildTree (h : s.Twin ρ P s') (e : Nat) {c : Tree.Config} (hc : c.rename ρ = c) :
    Both ρ P (s.buildTree i e c) (s'.buildTree i e c) := by
  have hreported := h.reportBuilding e c
  have hbuilt := hreported.act (a := .build e c) fun _ hk => by cases hk
  rw [Store.Act.rename, hc] at hbuilt
  rw [hc] at hreported
  unfold Session.buildTree
  rw [h.store.engine, need_map]
  refine .bind_map fun engine _ => ?_
  have hlength : (engine.rename ρ).trees.length = engine.trees.length := List.length_map ..
  have hrefuses : (engine.rename ρ).refuses = engine.refuses := rfl
  rw [hlength, hrefuses]
  split
  · have hrefused := hreported.act (a := .changeEngine e (.setRefusal false)) fun _ hk => by
      cases hk
    exact .ok (hrefused.panic i _)
  · exact .ok (hbuilt.say i _)

theorem Twin.performOnEngine (h : s.Twin ρ P s') (name : String) (c : EngineCommand) :
    Both ρ P (s.performOnEngine i name c) (s'.performOnEngine i name c) := by
  unfold Session.performOnEngine
  rw [h.engine]
  refine .bind fun e _ => ?_
  cases c with
  | view =>
      dsimp only
      rw [h.store.engine, need_map]
      refine .bind_map fun engine _ => .ok ?_
      have hlength : (engine.rename ρ).trees.length = engine.trees.length := List.length_map ..
      rw [releasedTrees_rename, hlength]
      exact h.say i _
  | arm reason => exact .ok ((h.act (a := .changeEngine e (.arm reason)) nofun).say i .done)
  | refuseNext =>
      dsimp only
      rw [h.store.engine, need_map]
      refine .bind_map fun engine _ => ?_
      have hreports :
          (engine.rename ρ).manner.reportsBuilding = engine.manner.reportsBuilding := rfl
      rw [hreports]
      split
      · exact .ok ((h.act (a := .changeEngine e (.setRefusal true)) nofun).say i .done)
      · exact .error _
  | viewContext tag => exact .ok (h.say i _)
  | build component settings snapshot clipsChildren wasMounted listener =>
      dsimp only
      rw [h.component, h.policy]
      refine .bind fun root _ => .bind fun policy _ => h.buildTree e ?_
      cases listener <;> rfl

theorem Twin.handOver (h : s.Twin ρ P s') (l : Layout) (rest : List Frame) :
    (s.handOver i l rest).Twin ρ P (s'.handOver i l (rest.map (·.rename ρ))) := by
  have hexecutor : ((s'.store.tree? l.tree).bind fun t => t.config.policy.layoutOn) =
      (s.store.tree? l.tree).bind fun t => t.config.policy.layoutOn := by
    rw [h.store.tree?]
    cases s.store.tree? l.tree <;> rfl
  unfold Session.handOver
  rw [hexecutor]
  split
  · next q _ => exact (h.act (a := .enqueue q l) nofun).push i rest
  · exact h.push i (.layout l .background .enter :: rest)

theorem Twin.layoutTree (h : s.Twin ρ P s') (bounds : Bounds) (component : String)
    (props : Option (Shared Props)) (engine : String) (index : Option Nat) (background : Bool) :
    Both ρ P (s.layoutTree i bounds component props engine index background)
      (s'.layoutTree i bounds component props engine index background) := by
  unfold Session.layoutTree
  rw [h.component, h.treeRef]
  refine .bind fun root _ => .bind fun tree _ => ?_
  split
  · exact .ok (Twin.handOver (h.say i .done) _ [])
  · exact .ok (h.push i [.layout _ .reply .enter])

theorem Twin.performOnTree (h : s.Twin ρ P s') (engine : String) (index : Option Nat)
    (c : TreeCommand) :
    Both ρ P (s.performOnTree i engine index c) (s'.performOnTree i engine index c) := by
  unfold Session.performOnTree
  rw [h.treeRef]
  refine .bind fun t _ => ?_
  rw [h.store.tree?, need_map]
  refine .bind_map fun tree _ => ?_
  have hchange (c : Tree.Change) := Twin.say (h.act (a := .changeTree t c) nofun) i .done
  cases c with
  | isLaidOutFor bounds => exact .ok (h.say i _)
  | snapshot =>
      dsimp only
      have hkeeps : (s'.store.engines[t.engine]?.any fun e => e.manner.keepsState) =
          s.store.engines[t.engine]?.any fun e => e.manner.keepsState := by
        rw [h.store.engine]
        cases s.store.engines[t.engine]? <;> rfl
      rw [hkeeps]
      exact .ok (h.say i _)
  | release => exact .ok (hchange .release)
  | reportWindow position window => exact .ok (hchange (.reportWindow position window))
  | setReadyListener listener => exact .ok (hchange (.setReadyListener listener))
  | mount => exact .ok (hchange .mount)
  | update key value => exact .ok (hchange (.update key value))
  | get key kind => exact .ok (h.say i _)
  | view => exact .ok (h.answer i (.tree ρ tree))

/-! ## Commands about pools -/

theorem Twin.pool? (h : s.Twin ρ P s') (p : Nat) :
    (s'.store.pool? p).map (·.capacity) = (s.store.pool? p).map (·.capacity) := by
  have hcap := congrArg (·[p]?.join) h.store.capacities
  simp only [Store.capacities, List.getElem?_map] at hcap
  unfold Store.pool?
  cases hp : s.store.pools[p]? <;> cases hp' : s'.store.pools[p]? <;> simp_all

theorem Twin.makePool (h : s.Twin ρ P s') (into : String) (capacity : UInt64) :
    (s.makePool i into capacity).Twin ρ P (s'.makePool i into capacity) := by
  have hlength {t t' : Session} (ht : t.Twin ρ P t') :
      t'.store.pools.length = t.store.pools.length := by
    have hcap := congrArg List.length ht.store.capacities
    rwa [Store.capacities, Store.capacities, List.length_map, List.length_map] at hcap
  have hadded {t t' : Session} (ht : t.Twin ρ P t') (pool : Pool) :
      (((t.modifyStore fun store => { store with pools := store.pools ++ [some pool] })
        |>.modifyRegisters fun r =>
          { r with pools := r.pools.put into t.store.pools.length }).answer
        i (.text pool.policyText)).Twin ρ P
      (((t'.modifyStore fun store => { store with pools := store.pools ++ [some pool] })
        |>.modifyRegisters fun r =>
          { r with pools := r.pools.put into t'.store.pools.length }).answer
        i (.text pool.policyText)) := by
    rw [hlength ht]
    refine Twin.say (Twin.modifyRegisters (ht.act (a := .addPool pool) nofun) ?_) i _
    exact fun _ => rfl
  unfold Session.makePool
  rw [h.registers]
  split
  · exact h.panic i _
  · next pool _ =>
      dsimp only [Registers.rename]
      split
      · next p _ => exact hadded (h.act (a := .dropPool p) nofun) pool
      · exact hadded h pool

theorem Twin.dropPool (h : s.Twin ρ P s') (name : String) :
    (s.dropPool i name).Twin ρ P (s'.dropPool i name) := by
  unfold Session.dropPool
  rw [h.registers]
  dsimp only [Registers.rename]
  split
  · exact h.say i _
  · next p _ =>
      refine Twin.say (Twin.modifyRegisters (h.act (a := .dropPool p) nofun) ?_) i _
      exact fun _ => rfl

theorem Twin.usePool (h : s.Twin ρ P s') (name : String)
    {f f' : Session × Nat → Except Trouble Session}
    (hf : ∀ t t' p, s.pool name = .ok p → t.Twin ρ P t' → t.store = s.store → t'.store = s'.store →
      Both ρ P (f (t, p)) (f' (t', p))) :
    Both ρ P (s.usePool name >>= f) (s'.usePool name >>= f') := by
  unfold Session.usePool
  rw [h.pool]
  cases hp : s.pool name with
  | error trouble => exact .error trouble
  | ok p => exact hf _ _ p hp { h with } rfl rfl

theorem Twin.performOnPool (h : s.Twin ρ P s') (name : String) (c : PoolCommand) :
    Both ρ P (s.performOnPool i name c) (s'.performOnPool i name c) := by
  unfold Session.performOnPool
  refine h.usePool name fun t t' p _ ht hstore hstore' => ?_
  cases c with
  | view =>
      have hcap := ht.pool? p
      dsimp only
      cases hp : t.store.pool? p with
      | none =>
          rw [hp, Option.map_none, Option.map_eq_none_iff] at hcap
          rw [hcap]
          exact .error _
      | some pool =>
          rw [hp, Option.map_some, Option.map_eq_some_iff] at hcap
          obtain ⟨pool', hp', hcap⟩ := hcap
          rw [hp']
          refine .ok (ht.answer i ?_)
          rw [hcap]
          split
          · exact .refl _
          · exact .pool _ _ _ hcap
  | clear => exact .ok ((ht.act (a := .clearPool p) nofun).say i _)

/-! ## Commands about holders -/

/-- An act about a holder of a register. -/
theorem Twin.actOn (h : s.Twin ρ P s') (i : Nat) {a : Store.Act}
    (ha : a.Fits ρ P s.store s'.store) :
    ({ s with store := s.store.act a }.answer i .done).Twin ρ P
      ({ s' with store := s'.store.act (a.rename ρ) }.answer i .done) := (h.act ha).say i .done

theorem Twin.requestLayout (h : s.Twin ρ P s') (bounds : Bounds) (engine tag handle : String)
    (background : Bool) :
    Both ρ P (s.requestLayout i bounds engine tag handle background)
      (s'.requestLayout i bounds engine tag handle background) := by
  unfold Session.requestLayout
  rw [h.engine, h.holder]
  refine .bind fun e _ => .bind_map fun k _ => ?_
  exact .ok (h.push i [.openRequest ⟨k, e, tag, bounds, background⟩])

theorem Twin.answerHolder (h : s.Twin ρ P s') (hk : P k) :
    (s.answerHolder i k).Twin ρ P (s'.answerHolder i (ρ.holder k)) := by
  have hview := h.view? hk
  have hanswer (t : Session) (j : Nat) : t.answerHolder i j =
      (t.view? j).1.answer i (((t.view? j).2.map Reply.holder).getD .done) := by
    unfold Session.answerHolder
    rcases t.view? j with ⟨u, _ | v⟩
    · rfl
    · rfl
  rw [hanswer, hanswer]
  refine (h.look k (ρ.holder k)).answer i ?_
  revert hview
  cases (s.view? k).2 <;> cases (s'.view? (ρ.holder k)).2 <;> intro hview
  · exact .refl _
  · cases hview
  · cases hview
  · exact .holder (Option.some.inj hview)

theorem Twin.release (h : s.Twin ρ P s') (name : String) (hk : P k) :
    (s.release i name k).Twin ρ P (s'.release i name (ρ.holder k)) := by
  have hlet : (s.modifyRegisters fun r => { r with handles := r.handles.erase name }).Twin ρ P
      (s'.modifyRegisters fun r => { r with handles := r.handles.erase name }) :=
    h.modifyRegisters fun r => by
      unfold Registers.rename
      rw [Keyed.mapValues_erase]
  exact (hlet.act (a := .reset k) fun _ hj => Option.some.inj hj ▸ hk).push i [.giveBack k]

theorem Twin.performOnHolder (h : s.Twin ρ P s') (hheld : ∀ k, s.Holds k → P k) (name : String)
    (c : HolderCommand) :
    Both ρ P (s.performOnHolder i name c) (s'.performOnHolder i name c) := by
  unfold Session.performOnHolder
  rw [h.holder]
  refine .bind_map fun k hholder => ?_
  have hk := hheld k (holds_of_holder hholder)
  have hsub : ∀ j, some k = some j → P j := fun j hj => Option.some.inj hj ▸ hk
  have hchange (c : Holder.Change) := h.actOn i (a := .change k c) hsub
  obtain ⟨x, g, hx, hx', hhandle⟩ := h.store.holders k hk
  cases c with
  | clone into => exact .ok ((h.setHandle into k).say i _)
  | release => exact .ok (h.release name hk)
  | print =>
      dsimp only
      rw [hx, hx']
      exact .ok (h.say i _)
  | view => exact .ok (h.answerHolder hk)
  | downgrade into =>
      dsimp only
      rw [hx, hx']
      refine .ok (Twin.answer (h.modifyRegisters ?_) i (.handle _ _))
      intro r
      have hmade : ρ.handle (x.downgrade k) = ⟨ρ.holder k, g⟩ := hhandle 0
      unfold Registers.rename
      rw [Keyed.mapValues_put, hmade]
      rfl
  | describe item =>
      dsimp only
      rw [h.item]
      exact .bind fun item _ => .ok (hchange (.describe item))
  | invalidate => exact .ok (hchange .invalidate)
  | setHeight height => exact .ok (hchange (.setHeight height))
  | setInserted inserted => exact .ok (hchange (.setInserted inserted))
  | advance progress => exact .ok (h.actOn i (a := .advance k progress) hsub)
  | clearParked => exact .ok (hchange .clearParked)
  | evict => exact .ok (h.actOn i (a := .evict k) hsub)
  | reportWindow position window => exact .ok (h.actOn i (a := .reportWindow k position window) hk)
  | setReadyListener listener => exact .ok (h.actOn i (a := .setReadyListener k listener) hsub)

theorem Twin.dropHandle (h : s.Twin ρ P s') (name : String) :
    (s.dropHandle i name).Twin ρ P (s'.dropHandle i name) := by
  have hfilled : s'.registers.handles.contains name = s.registers.handles.contains name := by
    unfold Keyed.contains
    rw [h.registers, Registers.rename, Keyed.get?_mapValues, Option.isSome_map]
  unfold Session.dropHandle
  rw [hfilled]
  refine Twin.say (h.modifyRegisters fun r => ?_) i _
  unfold Registers.rename
  rw [Keyed.mapValues_erase]

/-! ## Commands about weak handles -/

theorem keeps_of_weakHandle {name : String} {w : WeakHandle} (hw : s.weakHandle name = .ok w) :
    s.Keeps w := ⟨name, eq_some_of_need hw⟩

theorem Twin.upgrade (h : s.Twin ρ P s') (hkept : ∀ w, s.Keeps w → Faithful ρ P s s' w)
    (weak : String) (into : Option Target) :
    Both ρ P (s.upgrade i weak into) (s'.upgrade i weak into) := by
  unfold Session.upgrade
  rw [h.weakHandle]
  refine .bind_map fun w hw => ?_
  obtain ⟨hresolve, hpaired⟩ := hkept w (keeps_of_weakHandle hw)
  rw [hresolve]
  cases hr : s.resolve? w with
  | none => exact .ok (h.say i _)
  | some k =>
      obtain ⟨hshown, hnumber⟩ := h.showHolder k (ρ.holder k)
      have hanswered := hshown.answer i hnumber
      dsimp only [Option.map_some]
      cases into with
      | none => exact .ok hanswered
      | some target => exact .ok (hanswered.fill i fun name => hanswered.setHandle name k)

theorem Twin.writeHeight (h : s.Twin ρ P s') (hkept : ∀ w, s.Keeps w → Faithful ρ P s s' w)
    (weak : String) (height : Int32) :
    Both ρ P (s.writeHeight i weak height) (s'.writeHeight i weak height) := by
  unfold Session.writeHeight
  rw [h.weakHandle]
  refine .bind_map fun w hw => ?_
  obtain ⟨hresolve, hpaired⟩ := hkept w (keeps_of_weakHandle hw)
  rw [hresolve]
  cases hr : s.resolve? w with
  | none => exact .ok (h.say i _)
  | some k =>
      obtain ⟨hwk, hgen⟩ := eq_of_resolve? hr
      have hk : P w.holder := hwk ▸ hpaired k hr
      exact .ok ((h.act (a := .writeHeight w height) ⟨hk, hgen⟩).say i _)

/-! ## Carrying commands out -/

theorem Twin.perform (h : s.Twin ρ P s') (hheld : ∀ k, s.Holds k → P k)
    (hkept : ∀ w, s.Keeps w → Faithful ρ P s s' w) {c : Command}
    (hc : ∀ item settings factory pool into, c ≠ .acquire item settings factory pool into) :
    Both ρ P (s.perform i c) (s'.perform i c) := by
  cases c with
  | component into name equivalence => exact .ok ((h.makeComponent into name equivalence).say i _)
  | item into source settings => exact h.makeItem into source settings
  | «section» component sticky spanSize fullSpan context into =>
      exact h.renderSection component sticky spanSize fullSpan context into
  | executor into style => exact .ok (h.makeExecutor into style)
  | runWaiting executor count => exact h.runWaiting executor count
  | engine into measure manner => exact .ok (h.makeEngine into measure manner)
  | onEngine engine c => exact h.performOnEngine engine c
  | gate into => exact .ok (h.makeGate into)
  | setGate gate engine => exact h.setGate gate engine
  | openGate gate => exact h.openGate gate
  | viewGate gate => exact h.viewGate gate
  | pool into capacity => exact .ok (h.makePool into capacity)
  | onPool pool c => exact h.performOnPool pool c
  | dropPool pool => exact .ok (h.dropPool pool)
  | acquire item settings factory pool into => exact absurd rfl (hc item settings factory pool into)
  | layout bounds engine tag handle background =>
      exact h.requestLayout bounds engine tag handle background
  | onHolder handle c => exact h.performOnHolder hheld handle c
  | dropHandle handle => exact .ok (h.dropHandle handle)
  | upgrade weak into => exact h.upgrade hkept weak into
  | writeHeight weak height => exact h.writeHeight hkept weak height
  | layoutTree bounds component props engine index background =>
      exact h.layoutTree bounds component props engine index background
  | onTree engine index c => exact h.performOnTree engine index c
  | spawn c into => exact .ok (h.spawn c into)
  | join job => exact h.join job
  | panic message => exact .ok (h.panic i message)
  | malformed registers field =>
      rw [Session.perform, Session.perform, h.blame]
      exact .error _

theorem Both.stepCommand (h : s.Twin ρ P s') {c : Command}
    (hboth : Both ρ P (s.perform i c) (s'.perform i c)) :
    (s.stepCommand i c).Twin ρ P (s'.stepCommand i c) := by
  unfold Session.stepCommand
  cases hp : s.perform i c <;> cases hp' : s'.perform i c <;> rw [hp, hp'] at hboth <;> cases hboth
  · exact h.say i _
  · next h => exact h

/-- An item that is in trouble acquires nothing. -/
theorem Twin.acquire_of_trouble (h : s.Twin ρ P s') {item : String}
    {settings : List (Policy.Setting String)} {pool : String}
    (htrouble : ∀ descriptor policy p, s.item item = .ok descriptor →
      s.policy settings = .ok policy → s.pool pool ≠ .ok p)
    (factory : Option Factory) (into : Target) :
    Both ρ P (s.acquire i item settings factory pool into)
      (s'.acquire i item settings factory pool into) := by
  unfold Session.acquire
  rw [h.item, h.policy]
  refine .bind fun descriptor hitem => .bind fun policy hpolicy => ?_
  exact h.usePool pool fun _ _ p hp => absurd hp (htrouble descriptor policy p hitem hpolicy)

end Recycler.Session

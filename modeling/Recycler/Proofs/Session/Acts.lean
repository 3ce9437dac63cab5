import Recycler.Proofs.Store.Handle
import Recycler.Session.Run

/-!
# What a step does to the store

`Session.acts` lists the acts of the step by which a thread goes on, in their order. Most steps come
with one act at most; a request in the background hands its layout over in the step that finds its
tree.

A step begins with the frame taken off the stack, so what a frame does is said for the session
without it (`Session.off`).
-/

namespace Recycler

/-- Whether a frame is a worker that waits. -/
def Frame.isServe : Frame → Bool
  | .serve _ => true
  | _ => false

theorem Frame.isServe_of_holder? {f : Frame} {h : Nat} (hf : f.holder? = some h) :
    f.isServe = false := by
  cases f with
  | serve q => cases hf
  | _ => rfl

namespace Session

variable (s : Session)

/-- The work that is under way on a thread. -/
def work (j : Nat) : List Frame :=
  ((s.threads[j]?.map (·.stack)).getD []).filter fun f => !f.isServe

/-- The frame that a thread goes on with. -/
def top? (i : Nat) : Option Frame := s.threads[i]?.bind (·.stack.head?)

/-- The session without that frame. -/
def off (i : Nat) : Session := s.modifyThread i fun t => { t with stack := t.stack.tail }

def handOverActs (s : Store) (l : Layout) : List Store.Act :=
  match (s.tree? l.tree).bind (·.config.policy.layoutOn) with
  | some (.queue q) => [.enqueue q l]
  | _ => []

def launchActs (s : Store) (r : Request) : List Store.Act :=
  if r.call.background then handOverActs s r.layout else []

def holderActs (h : Nat) : HolderCommand → List Store.Act
  | .release => [.reset h]
  | .describe item =>
    match s.item item with
    | .ok item => [.change h (.describe item)]
    | .error _ => []
  | .invalidate => [.change h .invalidate]
  | .setHeight height => [.change h (.setHeight height)]
  | .setInserted inserted => [.change h (.setInserted inserted)]
  | .advance progress => [.advance h progress]
  | .clearParked => [.change h .clearParked]
  | .evict => [.evict h]
  | .reportWindow position window => [.reportWindow h position window]
  | .setReadyListener listener => [.setReadyListener h listener]
  | .clone _ | .print | .view | .downgrade _ => []

def treeActs (t : TreeRef) : TreeCommand → List Store.Act
  | .release => [.changeTree t .release]
  | .reportWindow position window => [.changeTree t (.reportWindow position window)]
  | .setReadyListener listener => [.changeTree t (.setReadyListener listener)]
  | .mount => [.changeTree t .mount]
  | .update key value => [.changeTree t (.update key value)]
  | _ => []

def engineActs (e : Nat) : EngineCommand → List Store.Act
  | .arm reason => [.changeEngine e (.arm reason)]
  | .refuseNext =>
    match s.store.engines[e]? with
    | some engine =>
      if engine.manner.reportsBuilding then [.changeEngine e (.setRefusal true)] else []
    | none => []
  | .build component settings snapshot clipsChildren wasMounted listener =>
    match s.component component, s.policy settings, s.store.engines[e]? with
    | .ok root, .ok policy, some engine =>
      let listener := listener.map (·.withoutHolder)
      if engine.refuses then [.changeEngine e (.setRefusal false)]
      else [.build e { root, policy, snapshot, clipsChildren, wasMounted, listener }]
    | _, _, _ => []
  | _ => []

def commandActs : Command → List Store.Act
  | .executor _ .inline => []
  | .executor into .manual => [.addQueue { name := into, hasWorker := false }]
  | .executor into .worker => [.addQueue { name := into, hasWorker := true }]
  | .engine into measure manner => [.addEngine into measure manner]
  | .onEngine engine c =>
    match s.engine engine with
    | .ok e => s.engineActs e c
    | .error _ => []
  | .gate _ => [.addGate]
  | .setGate gate engine =>
    match gate.mapM s.gate, s.engine engine with
    | .ok gate, .ok e => [.changeEngine e (.setGate gate)]
    | _, _ => []
  | .openGate gate =>
    match s.gate gate with
    | .ok g => [.openGate g]
    | .error _ => []
  | .pool into capacity =>
    match Pool.new? capacity with
    | some pool => ((s.registers.pools.get? into).map .dropPool).toList ++ [.addPool pool]
    | none => []
  | .onPool pool .clear =>
    match s.pool pool with
    | .ok p => [.clearPool p]
    | .error _ => []
  | .dropPool pool => ((s.registers.pools.get? pool).map .dropPool).toList
  | .acquire item settings factory pool _ =>
    match s.item item, s.policy settings, s.pool pool with
    | .ok item, .ok policy, .ok p => [.acquire p item policy factory]
    | _, _, _ => []
  | .onHolder handle c =>
    match s.holder handle with
    | .ok h => s.holderActs h c
    | .error _ => []
  | .writeHeight weak height =>
    match s.weakHandle weak with
    | .ok w => if (s.resolve? w).isSome then [.writeHeight w height] else []
    | .error _ => []
  | .layoutTree bounds component props engine index true =>
    match s.component component, s.treeRef engine index with
    | .ok root, .ok tree => handOverActs s.store { tree, root, bounds, props }
    | _, _ => []
  | .onTree engine index c =>
    match s.treeRef engine index with
    | .ok t => treeActs t c
    | .error _ => []
  | _ => []

/-- A listener writes the height only if the handle it was made with resolves. -/
def listenerActs (s : Session) (l : Layout) (size : Size) : List Store.Act :=
  match ((s.store.tree? l.tree).bind (·.config.listener)).bind fun listener =>
      if listener.factory.writesHeight then listener.handle else none with
  | some w => if (s.resolve? w).isSome then [.writeHeight w size.height] else []
  | none => []

def openingActs (call : Call) : List Store.Act :=
  .openRequest call :: match (s.store.openRequest call).2 with
    | .live r => launchActs (s.store.openRequest call).1 r
    | _ => []

def claimActs (call : Call) (item : Shared Descriptor) (component : Component)
    (handle : WeakHandle) (listener : Option MeasureListener) : List Store.Act :=
  .claimTree call item component handle listener ::
    match s.store.claimTree call item component handle listener with
    | (store, .found tree) => launchActs store { call, item, component, tree }
    | (store, .built _ tree) => launchActs store { call, item, component, tree }
    | _ => []

/-- What carrying a frame on does to the store, for the session without the frame. -/
def frameActs (i : Nat) : Frame → List Store.Act
  | .command c => s.commandActs c
  | .openRequest call => s.openingActs call
  | .claimTree call item component handle listener =>
    s.claimActs call item component handle listener
  | .layout l _ .enter => [.enterLayout l.tree]
  | .layout l _ (.settle size) => [.settleLayout l size]
  | .layout l sequel (.notifyMeasured size ready) =>
    (s.push i [.layout l sequel (.notifyReady size ready)]).listenerActs l size
  | .layout _ (.commit r) (.deliver (.ok size)) => [.commitLayout r size]
  | .confirm r => [.confirmLayout r]
  | .giveBack h => [.giveBack h (s.isAlive h)]
  | .runWaiting q remaining _ => if remaining = some 0 then [] else [.dequeue q]
  | .serve q => [.dequeue q]
  | _ => []

@[simp] theorem frameActs_command (i : Nat) (c : Command) :
    s.frameActs i (.command c) = s.commandActs c := rfl

/-! ## Commands whose names are found

One equation for each command that looks names up. They hold by evaluation, so that `commandActs`,
with its many cases, need not be unfolded where one command is at issue.
-/

section Found

variable {s}

theorem commandActs_onEngine {name : String} {e : Nat} (he : s.engine name = .ok e)
    (c : EngineCommand) : s.commandActs (.onEngine name c) = s.engineActs e c := by
  show (match s.engine name with
    | .ok e => s.engineActs e c
    | .error _ => []) = _
  rw [he]

theorem commandActs_setGate {gate : Option String} {name : String} {g : Option Nat} {e : Nat}
    (hg : gate.mapM s.gate = .ok g) (he : s.engine name = .ok e) :
    s.commandActs (.setGate gate name) = [.changeEngine e (.setGate g)] := by
  show (match gate.mapM s.gate, s.engine name with
    | .ok gate, .ok e => [Store.Act.changeEngine e (.setGate gate)]
    | _, _ => []) = _
  rw [hg, he]

theorem commandActs_openGate {name : String} {g : Nat} (hg : s.gate name = .ok g) :
    s.commandActs (.openGate name) = [.openGate g] := by
  show (match s.gate name with
    | .ok g => [Store.Act.openGate g]
    | .error _ => []) = _
  rw [hg]

theorem commandActs_pool (s : Session) (into : String) (capacity : UInt64) :
    s.commandActs (.pool into capacity) = match Pool.new? capacity with
      | some pool => ((s.registers.pools.get? into).map .dropPool).toList ++ [.addPool pool]
      | none => [] := rfl

theorem commandActs_clearPool {name : String} {p : Nat} (hp : s.pool name = .ok p) :
    s.commandActs (.onPool name .clear) = [.clearPool p] := by
  show (match s.pool name with
    | .ok p => [Store.Act.clearPool p]
    | .error _ => []) = _
  rw [hp]

theorem commandActs_acquire {name pool : String} {settings : List (Policy.Setting String)}
    {item : Shared Descriptor} {policy : Policy} {p : Nat} (hitem : s.item name = .ok item)
    (hpolicy : s.policy settings = .ok policy) (hp : s.pool pool = .ok p)
    (factory : Option Factory) (into : Target) :
    s.commandActs (.acquire name settings factory pool into) =
      [.acquire p item policy factory] := by
  show (match s.item name, s.policy settings, s.pool pool with
    | .ok item, .ok policy, .ok p => [Store.Act.acquire p item policy factory]
    | _, _, _ => []) = _
  rw [hitem, hpolicy, hp]

theorem commandActs_onHolder {name : String} {h : Nat} (hh : s.holder name = .ok h)
    (c : HolderCommand) : s.commandActs (.onHolder name c) = s.holderActs h c := by
  show (match s.holder name with
    | .ok h => s.holderActs h c
    | .error _ => []) = _
  rw [hh]

theorem frameActs_release {name : String} {h : Nat} (hn : s.registers.handles.get? name = some h)
    (i : Nat) : s.frameActs i (.command (.onHolder name .release)) = [.reset h] := by
  rw [frameActs_command, commandActs_onHolder (h := h) (by rw [Session.holder, hn]; rfl)]
  rfl

theorem commandActs_writeHeight {name : String} {w : WeakHandle} (hw : s.weakHandle name = .ok w)
    (height : Int32) : s.commandActs (.writeHeight name height) =
      if (s.resolve? w).isSome then [.writeHeight w height] else [] := by
  show (match s.weakHandle name with
    | .ok w => if (s.resolve? w).isSome then [Store.Act.writeHeight w height] else []
    | .error _ => []) = _
  rw [hw]

theorem commandActs_layoutTree {component engine : String} {index : Option Nat}
    {root : Component} {tree : TreeRef} (hr : s.component component = .ok root)
    (ht : s.treeRef engine index = .ok tree) (bounds : Bounds) (props : Option (Shared Props)) :
    s.commandActs (.layoutTree bounds component props engine index true) =
      handOverActs s.store { tree, root, bounds, props } := by
  show (match s.component component, s.treeRef engine index with
    | .ok root, .ok tree => handOverActs s.store { tree, root, bounds, props }
    | _, _ => []) = _
  rw [hr, ht]

theorem commandActs_onTree {engine : String} {index : Option Nat} {t : TreeRef}
    (ht : s.treeRef engine index = .ok t) (c : TreeCommand) :
    s.commandActs (.onTree engine index c) = treeActs t c := by
  show (match s.treeRef engine index with
    | .ok t => treeActs t c
    | .error _ => []) = _
  rw [ht]

end Found

/-- What a thread does to the store when it is carried on. -/
def acts (i : Nat) : List Store.Act :=
  match s.top? i with
  | some f => (s.off i).frameActs i f
  | none => []

end Session

end Recycler

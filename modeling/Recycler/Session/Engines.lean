import Recycler.Session.Layout

/-!
# Commands about engines, gates and trees

Commands that go to an engine or to a tree without a holder in between. A layout asked of a tree
goes through the same steps as one asked by a holder.
-/

namespace Recycler.Session

/-! ## Gates -/

/-- Makes a gate, which is closed. -/
def makeGate (s : Session) (i : Nat) (into : String) : Session :=
  let number := s.store.gates.length
  let s := s.modifyStore fun store => { store with gates := store.gates ++ [{}] }
  (s.modifyRegisters fun r => { r with gates := r.gates.put into number }).answer i .done

/-- Puts an engine behind a gate, or behind none. -/
def setGate (s : Session) (i : Nat) (gate : Option String) (engine : String) :
    Except Trouble Session := do
  let gate ← gate.mapM s.gate
  let e ← s.engine engine
  return (s.modifyStore (·.modifyEngine e ({ · with gate }))).answer i .done

/-- Opens a gate. -/
def openGate (s : Session) (i : Nat) (name : String) : Except Trouble Session := do
  let g ← s.gate name
  return (s.modifyStore (·.modifyGate g Gate.openUp)).answer i .done

/-- Replies with the number of layouts that came to a gate. -/
def viewGate (s : Session) (i : Nat) (name : String) : Except Trouble Session := do
  let g ← s.gate name
  let gate ← need "gate" s.store.gates[g]?
  return s.answer i (.gate gate.entered)

/-! ## Engines -/

/-- Makes an engine. -/
def makeEngine (s : Session) (i : Nat) (into : String) (measure : Measure)
    (manner : Engine.Manner) : Session :=
  let number := s.store.engines.length
  let engine : Engine := { name := into, measure, manner }
  let s := s.modifyStore fun store => { store with engines := store.engines ++ [engine] }
  (s.modifyRegisters fun r => { r with engines := r.engines.put into number }).answer i .done

/-- Asks an engine for a tree that no holder will have. -/
def buildTree (s : Session) (i : Nat) (e : Nat) (config : Tree.Config) :
    Except Trouble Session := do
  let engine ← need "engine" s.store.engines[e]?
  let s := s.reportBuilding e config
  if engine.refuses then
    return (s.modifyStore (·.modifyEngine e ({ · with refuses := false }))).panic i "create_tree"
  else
    return (s.modifyStore (·.modifyEngine e (·.build config))).answer i
      (.built engine.name engine.trees.length config)

/-- Carries out a command about the engine in a register. -/
def performOnEngine (s : Session) (i : Nat) (name : String) (c : EngineCommand) :
    Except Trouble Session := do
  let e ← s.engine name
  let change (f : Engine → Engine) : Session :=
    (s.modifyStore (·.modifyEngine e f)).answer i .done
  match c with
  | .view =>
    let engine ← need "engine" s.store.engines[e]?
    return s.answer i (.engine engine.trees.length engine.layouts engine.releasedTrees)
  | .arm reason => return change ({ · with armed := some reason })
  | .refuseNext =>
    let engine ← need "engine" s.store.engines[e]?
    if engine.manner.reportsBuilding then return change ({ · with refuses := true })
    else throw (.malformed "engine")
  | .viewContext tag => return s.answer i (.context tag)
  | .build component settings snapshot clipsChildren wasMounted listener =>
    let root ← s.component component
    let policy ← s.policy settings
    let listener := listener.map (·.withoutHolder)
    s.buildTree i e { root, policy, snapshot, clipsChildren, wasMounted, listener }

/-! ## Trees -/

/-- Begins a layout that a tree is asked for. -/
def layoutTree (s : Session) (i : Nat) (bounds : Bounds) (component : String)
    (props : Option (Shared Props)) (engine : String) (index : Option Nat) (background : Bool) :
    Except Trouble Session := do
  let root ← s.component component
  let tree ← s.treeRef engine index
  let layout : Layout := { tree, root, bounds, props }
  if background then return (s.answer i .done).handOver i layout []
  else return s.push i [.layout layout .reply .enter]

/-- Carries out a command about a tree. -/
def performOnTree (s : Session) (i : Nat) (engine : String) (index : Option Nat)
    (c : TreeCommand) : Except Trouble Session := do
  let t ← s.treeRef engine index
  let tree ← need "tree" (s.store.tree? t)
  let change (f : Tree → Tree) : Session := (s.modifyStore (·.modifyTree t f)).answer i .done
  match c with
  | .isLaidOutFor bounds => return s.answer i (.truth (tree.isLaidOutFor bounds))
  | .snapshot =>
    let keeps := s.store.engines[t.engine]?.any (·.manner.keepsState)
    return s.answer i (if keeps then .text tree.state.text else .done)
  | .release => return change Tree.release
  | .reportWindow position window => return change (·.reportWindow position window)
  | .setReadyListener listener => return change (·.setReadyListener listener)
  | .mount => return change Tree.mount
  | .update key value => return change (·.update key value)
  | .get key kind =>
    return s.answer i (match tree.state.get? key kind with
      | some value => .value value
      | none => .done)
  | .view => return s.answer i (.tree tree)

end Recycler.Session

import Recycler.Session.Basic
import Recycler.Store.Request

/-!
# Layouts under way

How a session carries layout requests and layouts on from one step to the next. Each function is
one step: what it does to the store happens at once, and the callback it calls, if any, is put on
top of the work that goes on afterwards.
-/

namespace Recycler.Session

/-! ## Requests on holders -/

/-- Hands a layout over to the executor of its tree and goes on with the frames `rest`. A tree
without an executor carries the layout out at once. -/
def handOver (s : Session) (i : Nat) (l : Layout) (rest : List Frame) : Session :=
  match (s.store.tree? l.tree).bind fun t => t.config.policy.layoutOn with
  | some (.queue q) => (s.modifyStore (·.enqueue q l)).push i rest
  | _ => s.push i (.layout l .background .enter :: rest)

/-- Goes on with a request whose tree is known: the layout is carried out and committed, or handed
over and counted as done. -/
def launch (s : Session) (i : Nat) (r : Request) : Session :=
  if r.call.background then s.handOver i r.layout [.confirm r]
  else s.push i [.layout r.layout (.commit r) .enter]

/-- The first step of a request. -/
def stepOpenRequest (s : Session) (i : Nat) (call : Call) : Session :=
  let (store, opening) := s.store.openRequest call
  let s := { s with store := store }
  let nothing : Reply := if call.background then .done else .size none
  match opening with
  | .released =>
    let line := Log.tagged call.tag "layout requested on a released holder"
    (s.write [⟨.warn, line⟩]).answer i nothing
  | .view => s.answer i nothing
  | .live r => s.launch i r
  | .vacant item component none handle =>
    s.push i [.claimTree call item component handle none]
  | .vacant item component (some factory) handle =>
    s.push i [
      .factory factory handle,
      .claimTree call item component handle (some ⟨factory, some handle⟩)]

/-- Calls a factory. -/
def stepFactory (s : Session) (i : Nat) (factory : Factory) (handle : WeakHandle) : Session :=
  let (s, view) := match s.resolve? handle with
    | some h => s.view? h
    | none => (s, none)
  (s.report (.factory factory.name view handle)).fire i factory.script

/-- Reports that an engine was asked for a tree, if it is one that reports it. -/
def reportBuilding (s : Session) (engine : Nat) (config : Tree.Config) : Session :=
  match s.store.engines[engine]? with
  | some e => if e.manner.reportsBuilding then s.report (.building e.name config) else s
  | none => s

/-- The log line about a tree that is to be built. -/
def buildingLog (call : Call) (item : Shared Descriptor) (config : Tree.Config) : Log :=
  ⟨.trace, Log.tagged call.tag <| "building tree for " ++ item.value.name ++
    " (restoring state: " ++ Text.bool config.snapshot.isSome ++ ")"⟩

/-- The second step of a request. -/
def stepClaimTree (s : Session) (i : Nat) (call : Call) (item : Shared Descriptor)
    (component : Component) (handle : WeakHandle) (listener : Option MeasureListener) : Session :=
  let (store, claim) := s.store.claimTree call item component handle listener
  let s := { s with store := store }
  match claim with
  | .stale =>
    let line := "holder released while preparing layout of " ++ item.value.name
    (s.write [⟨.debug, Log.tagged call.tag line⟩]).answer i
      (if call.background then .done else .size none)
  | .found tree => s.launch i { call, item, component, tree }
  | .built config tree =>
    ((s.write [buildingLog call item config]).reportBuilding call.engine config).launch i
      { call, item, component, tree }
  | .refused config =>
    ((s.write [buildingLog call item config]).reportBuilding call.engine config).panic i
      "create_tree"

/-- The last step of a request in the background. -/
def stepConfirm (s : Session) (i : Nat) (r : Request) : Session :=
  (s.modifyStore (·.confirmLayout r)).answer i .done

/-! ## Layouts on trees -/

/-- The step that begins a layout. -/
def stepEnter (s : Session) (i : Nat) (l : Layout) (sequel : Sequel) : Session :=
  let (store, entry) := s.store.enterLayout l.tree
  let s := { s with store := store }
  match entry with
  | .failed failure => s.push i [.layout l sequel (.deliver (.error failure))]
  | .free (some g) => s.push i [.layout l sequel (.gate g)]
  | .free none => s.push i [.layout l sequel .measure]

/-- The step that measures the root. -/
def stepMeasure (s : Session) (i : Nat) (l : Layout) (sequel : Sequel) : Session :=
  let s := s.push i [.layout l sequel (.settle (s.store.measure l))]
  match s.store.engines[l.tree.engine]? with
  | some e =>
    if e.manner.reportsMeasuring then
      (s.report (.measuring e.name l.root.name l.bounds)).fire i e.manner.script
    else s
  | none => s

/-- The step that commits the measured size to the tree. The listener for new layouts is the one
the tree has at that moment. -/
def stepSettle (s : Session) (i : Nat) (l : Layout) (sequel : Sequel) (size : Size) : Session :=
  let ready := (s.store.tree? l.tree).bind (·.readyListener)
  (s.modifyStore (·.settleLayout l size)).push i
    [.layout l sequel (.notifyMeasured size ready)]

/-- The step that tells the measure listener. -/
def stepNotifyMeasured (s : Session) (i : Nat) (l : Layout) (sequel : Sequel) (size : Size)
    (ready : Option ReadyListener) : Session :=
  let s := s.push i [.layout l sequel (.notifyReady size ready)]
  match (s.store.tree? l.tree).bind fun t => t.config.listener with
  | none => s
  | some listener =>
    let f := listener.factory
    match listener.handle with
    | some handle =>
      if f.writesHeight then
        let written := (s.resolve? handle).isSome
        let s := if written then s.modifyStore (·.writeHeight handle size.height) else s
        (s.report (.measured f.name size (some written))).fire i f.listenerScript
      else (s.report (.measured f.name size none)).fire i f.listenerScript
    | none => (s.report (.measured f.name size none)).fire i f.listenerScript

/-- The step that tells the listener for new layouts. -/
def stepNotifyReady (s : Session) (i : Nat) (l : Layout) (sequel : Sequel) (size : Size)
    (ready : Option ReadyListener) : Session :=
  let s := s.push i [.layout l sequel (.deliver (.ok size))]
  match ready with
  | none => s
  | some listener =>
    let mounted := (s.store.tree? l.tree).any (·.mounted)
    (s.report (.ready listener.name mounted)).fire i listener.script

/-- The log lines at the end of a request that was waited for. -/
def commitLogs (r : Request) (current : Bool) : List Log :=
  let finished : Log :=
    ⟨.trace, Log.tagged r.call.tag ("layout of " ++ r.component.name ++ Log.timeMark ++ "T")⟩
  if current then [finished]
  else [finished,
    ⟨.debug, Log.tagged r.call.tag ("discarding superseded layout of " ++ r.component.name)⟩]

/-- The last step of a layout, which hands its outcome on. -/
def stepDeliver (s : Session) (i : Nat) (l : Layout) (sequel : Sequel)
    (outcome : Except Failure Size) : Session :=
  match sequel, outcome with
  | .commit r, .ok size =>
    ((s.write (commitLogs r (s.store.isCurrent r))).modifyStore (·.commitLayout r size)).answer i
      (.size (some size))
  | .reply, .ok size => s.answer i (.size (some size))
  | .background, .ok _ => s.answer i .done
  | .background, .error failure =>
    let line := "async layout of " ++ l.root.name ++ " failed: " ++ failure.message
    (s.write [⟨.debug, line⟩]).answer i .done
  | _, .error failure => s.answer i (.trouble (.failure failure))

/-- Carries a layout on. A layout at a gate is only carried on once the gate is open. -/
def stepLayout (s : Session) (i : Nat) (l : Layout) (sequel : Sequel) : Stage → Session
  | .enter => s.stepEnter i l sequel
  | .gate _ => s.push i [.layout l sequel .measure]
  | .measure => s.stepMeasure i l sequel
  | .settle size => s.stepSettle i l sequel size
  | .notifyMeasured size ready => s.stepNotifyMeasured i l sequel size ready
  | .notifyReady size ready => s.stepNotifyReady i l sequel size ready
  | .deliver outcome => s.stepDeliver i l sequel outcome

end Recycler.Session

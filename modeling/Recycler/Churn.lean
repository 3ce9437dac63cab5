import Recycler.Store.Layout
import Recycler.Store.Request
import Recycler.Store.Upkeep

/-!
# Churn

Many workers on one pool and one engine: each of them again and again acquires a holder for an
item of its own, lays it out, looks at it and releases it. The workers take turns in any order,
and a turn is one stretch of work during which nothing else can happen, so that `step` by `step`
a list of worker numbers, a schedule, is an interleaving.

What a run comes to does not depend on the schedule, as long as all workers get to their end. The
`roundRobin` schedule is one by which they do.
-/

namespace Recycler

/-- What a churn is about. -/
structure Churn.Setup where
  workers : Nat
  /-- The number of items of each worker. -/
  items : Nat
  pool : Pool
  bounds : Bounds

/-- How far a worker has come with its item. -/
inductive Churn.Stage
  | take
  | configure (holder : Nat)
  /-- Looks at the holder before it is laid out. -/
  | inspect (holder : Nat)
  | openRequest (holder : Nat)
  | claimTree (holder : Nat) (item : Shared Descriptor) (component : Component)
      (handle : WeakHandle)
  | enter (request : Request)
  | settle (request : Request) (size : Size)
  | commit (request : Request) (size : Size)
  /-- Looks at the holder after it was laid out, with the outcome of the layout. -/
  | judge (holder : Nat) (outcome : Except Failure (Option Size))
  | reset (holder : Nat)
  | giveBack (holder : Nat)

/-- A worker with the number of items it has finished. -/
structure Churn.Worker where
  finished : Nat := 0
  stage : Churn.Stage := .take

/-- The state of a churn. -/
structure Churn where
  setup : Churn.Setup
  store : Store
  workers : List Churn.Worker
  /-- The number of holders that had no height and no valid layout when they were acquired. -/
  fresh : Nat := 0
  /-- How often each outcome of a layout, with the height known afterwards, was seen. -/
  tally : Keyed String Nat := .empty

namespace Churn

/-- The number of the one engine. -/
def engine : Nat := 0

/-- A churn at its start. -/
def start (setup : Setup) : Churn where
  setup
  store := { engines := [{ name := "" }], pools := [some setup.pool] }
  workers := List.replicate setup.workers {}

/-- The item of a worker after it has finished some. -/
def item (setup : Setup) (worker finished : Nat) : Shared Descriptor :=
  let number := worker * setup.items + finished
  let name := "item-" ++ Text.nat worker ++ "-" ++ Text.nat finished
  ⟨number, { content := .component { number, equivalence := .byName, name } }⟩

/-- The holder a worker has at a stage. -/
def Stage.holder? : Stage → Option Nat
  | take => none
  | configure h => some h
  | inspect h => some h
  | openRequest h => some h
  | claimTree h .. => some h
  | enter r => some r.call.holder
  | settle r _ => some r.call.holder
  | commit r _ => some r.call.holder
  | judge h _ => some h
  | reset h => some h
  | giveBack h => some h

/-- Whether a worker other than the given one has a holder. -/
def isElsewhere (c : Churn) (worker h : Nat) : Bool :=
  c.workers.zipIdx.any fun w => w.2 ≠ worker && w.1.stage.holder? = some h

/-- The layout request of an item on a holder. -/
def call (c : Churn) (h : Nat) : Call :=
  { holder := h, engine, tag := "test", bounds := c.setup.bounds, background := false }

/-- An outcome of a layout and the height known afterwards, in printed values. -/
def outcomeText (outcome : Except Failure (Option Size)) (height : Option Int32) : String :=
  let result := match outcome with
    | .ok size => Text.wrapped "Ok" (Text.option (size.map Size.text))
    | .error failure => Text.wrapped "Err" failure.text
  result ++ " " ++ Text.option (height.map fun n => Text.int n.toInt)

/-- Counts an outcome. -/
def count (c : Churn) (text : String) : Churn :=
  { c with tally := c.tally.put text ((c.tally.get? text).getD 0 + 1) }

/-- Puts a worker at a stage. -/
def goOn (c : Churn) (worker : Nat) (stage : Stage) : Churn :=
  { c with workers := c.workers.modify worker ({ · with stage }) }

/-- Puts a worker at its next item. -/
def finish (c : Churn) (worker : Nat) : Churn :=
  { c with workers := c.workers.modify worker fun w => { finished := w.finished + 1 } }

/-- Goes on with a request that was opened. -/
def goOnOpened (c : Churn) (worker h : Nat) : Store.Opening → Churn
  | .live r => c.goOn worker (.enter r)
  | .vacant item component _ handle => c.goOn worker (.claimTree h item component handle)
  | .released => c.goOn worker (.judge h (.ok none))
  | .view => c.goOn worker (.judge h (.ok none))

/-- Goes on with a request whose tree was claimed. -/
def goOnClaimed (c : Churn) (worker h : Nat) (item : Shared Descriptor) (component : Component) :
    Store.Claim → Churn
  | .found tree => c.goOn worker (.enter { call := c.call h, item, component, tree })
  | .built _ tree => c.goOn worker (.enter { call := c.call h, item, component, tree })
  | .stale => c.goOn worker (.judge h (.ok none))
  | .refused _ => c.goOn worker (.judge h (.ok none))

/-- One turn of a worker with an item at a stage. -/
def stepStage (c : Churn) (worker : Nat) (item : Shared Descriptor) : Stage → Churn
  | .take =>
    let (store, h, _) := c.store.takeHolder Store.sharedPool
    { c with store := store }.goOn worker (.configure h)
  | .configure h =>
    { c with store := c.store.configure h item {} none }.goOn worker (.inspect h)
  | .inspect h =>
    let isFresh := c.store.holders[h]?.any fun x => x.state.height.isNone && !x.state.valid
    { c with fresh := if isFresh then c.fresh + 1 else c.fresh }.goOn worker (.openRequest h)
  | .openRequest h =>
    let (store, opening) := c.store.openRequest (c.call h)
    { c with store := store }.goOnOpened worker h opening
  | .claimTree h item component handle =>
    let (store, claim) := c.store.claimTree (c.call h) item component handle none
    { c with store := store }.goOnClaimed worker h item component claim
  | .enter r =>
    match c.store.enterLayout r.tree with
    | (store, .failed failure) =>
      { c with store := store }.goOn worker (.judge r.call.holder (.error failure))
    | (store, .free _) =>
      { c with store := store }.goOn worker (.settle r (store.measure r.layout))
  | .settle r size =>
    { c with store := c.store.settleLayout r.layout size }.goOn worker (.commit r size)
  | .commit r size =>
    { c with store := c.store.commitLayout r size }.goOn worker
      (.judge r.call.holder (.ok (some size)))
  | .judge h outcome =>
    let height := c.store.holders[h]?.bind fun x => x.state.height
    (c.count (outcomeText outcome height)).goOn worker (.reset h)
  | .reset h => { c with store := c.store.reset h }.goOn worker (.giveBack h)
  | .giveBack h =>
    let (store, _) := c.store.giveBack h (c.isElsewhere worker h)
    { c with store := store }.finish worker

/-- One turn of a worker. A worker without items left does nothing, and so does a number beyond
those of the workers. -/
def step (c : Churn) (worker : Nat) : Churn :=
  match c.workers[worker]? with
  | none => c
  | some w =>
    if w.finished < c.setup.items then c.stepStage worker (item c.setup worker w.finished) w.stage
    else c

/-- Runs workers in the order of a schedule. -/
def run (c : Churn) (schedule : List Nat) : Churn := schedule.foldl step c

/-- At least as many turns as a worker needs for an item. -/
def turnsPerItem : Nat := 11

/-- The schedule by which the workers take turns in a fixed order until all are at their end. -/
def roundRobin (setup : Setup) : List Nat :=
  (List.replicate (setup.items * turnsPerItem) (List.range setup.workers)).flatten

/-- The pool all holders come from. -/
def pool (c : Churn) : Pool := (c.store.pool? Store.sharedPool).getD c.setup.pool

/-- The trees that were built. -/
def trees (c : Churn) : List Tree := (c.store.engines[engine]?.map (·.trees)).getD []

/-- The number of layouts that were committed to a tree. -/
def layouts (c : Churn) : Nat := (c.store.engines[engine]?.map (·.layouts)).getD 0

end Churn

end Recycler

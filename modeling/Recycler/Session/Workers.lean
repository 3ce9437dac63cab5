import Recycler.Session.Basic

/-!
# Workers

A worker lasts as long as somebody refers to its executor: a register, the policy of a holder or
of a tree, or the task the worker is at. A tree in turn lasts as long as its engine does, or a
holder uses it, or a layout is to be carried out on it.

As with holders, nobody counts these references while the session goes along. What is referred to
can be read off the session, and a worker ends with the step that takes the last reference away.
A layout that waits in a queue refers to its tree and by it to the queue, so the queue of a worker
that ends is empty.
-/

namespace Recycler.Session

/-- Whether somebody refers to an engine: a register, or a layout request in progress. -/
def refersToEngine (s : Session) (e : Nat) : Bool :=
  s.registers.engines.entries.any (·.2 = e) ||
    s.threads.any fun thread => thread.stack.any fun f => f.engine? = some e

/-- Whether somebody refers to a tree: its engine, a holder, or a layout that is in progress or
waits to be carried out. -/
def refersToTree (s : Session) (t : TreeRef) : Bool :=
  s.refersToEngine t.engine ||
    (s.store.holders.zipIdx.any fun h => h.1.state.slot.tree? = some t && s.isAlive h.2) ||
    (s.threads.any fun thread => thread.stack.any fun f => f.tree? = some t) ||
    s.store.queues.any fun queue => queue.waiting.any fun l => l.tree = t

/-- The policies of the holders and the trees that still exist. -/
def policies (s : Session) : List Policy :=
  let holders := s.store.holders.zipIdx.filter fun h => s.isAlive h.2
  let trees := s.store.engines.zipIdx.flatMap fun e =>
    (e.1.trees.zipIdx.filter fun t => s.refersToTree ⟨e.2, t.2⟩).map (·.1)
  holders.map (·.1.state.policy) ++ trees.map (·.config.policy)

/-- The queues whose executors somebody refers to, once for each reference. -/
def queuesInUse (s : Session) : List Nat :=
  let named := s.registers.executors.entries.map (·.2)
  let busy := s.threads.flatMap fun thread => thread.stack.filterMap Frame.busy?
  (named ++ s.policies.flatMap Policy.executors).filterMap Executor.queue? ++ busy

/-- Ends the worker of a queue, if it has one. -/
def dismiss (s : Session) (q : Nat) : Session :=
  match s.store.queues[q]? with
  | some { name, hasWorker := true, .. } =>
    { s with threads := s.threads.map (Thread.retire q) }.write [.exiting name]
  | _ => s

/-- Ends the workers whose executors somebody referred to before, and nobody does any more.
References go in order, so a worker ends where the last one to its executor was. -/
def dismissSince (s before : Session) : Session :=
  let kept := s.queuesInUse
  let lost := before.queuesInUse.filter (!kept.contains ·)
  lost.reverse.eraseDups.reverse.foldl dismiss s

end Recycler.Session

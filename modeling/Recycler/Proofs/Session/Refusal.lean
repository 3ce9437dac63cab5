import Recycler.Proofs.Session.Capture
import Recycler.Proofs.Session.Resolve
import Recycler.Proofs.Store.Parked

/-!
# What a refused tree leaves behind

An engine that is asked for a tree may panic. The request is over then: it changed the holder by
the constraints that its first step recorded, and by one thing more. The state that was parked for
the next tree was taken from the holder before the engine was asked, and nobody puts it back
(`refused_of_run`). So the holder is as it was exactly if nothing was parked, and otherwise the
next tree begins without the state of the last one.
-/

namespace Recycler

open Store (builtFor)

/-- A claim that the engine refuses takes the parked state of the holder and uses the refusal up. -/
theorem Store.of_refused_claimTree {s : Store} {call : Call} {item : Shared Descriptor}
    {component : Component} {handle : WeakHandle} {listener : Option MeasureListener}
    {config : Tree.Config}
    (hc : (s.claimTree call item component handle listener).2 = .refused config) :
    ∃ y, s.holders[call.holder]? = some y ∧ y.generation = handle.generation ∧
      y.state.slot.tree? = none ∧ config.snapshot = y.state.slot.parked? ∧
      (s.claimTree call item component handle listener).1 =
        (s.modifyState call.holder (·.takeParked)).modifyEngine call.engine
          ({ · with refuses := false }) := by
  obtain ⟨y, engine, hy, he, hg, ht, rfl⟩ := exists_of_config?_claimTree (congrArg _ hc)
  refine ⟨y, hy, hg, ht, rfl, ?_⟩
  rw [snd_claimTree_of_vacant hy he hg ht] at hc
  have hr : engine.refuses = true := by
    cases hr : engine.refuses with
    | true => rfl
    | false =>
        rw [hr] at hc
        cases hc
  unfold claimTree
  simp only [hy, he, ht, if_pos hg, hr, if_true]

/-- Nothing is changed by taking what is parked if nothing is. -/
theorem Holder.State.takeParked_eq_self_iff {x : Holder.State} (hx : x.slot.tree? = none) :
    x.takeParked = x ↔ x.slot.parked? = none := by
  obtain ⟨item, slot, _⟩ := x
  cases slot with
  | live t => cases hx
  | empty => exact iff_of_true rfl rfl
  | parked state => exact iff_of_false (fun h => nomatch congrArg slot h) (fun h => nomatch h)

namespace Session

variable {s s' s'' t u : Session} {ms ns : List Moment} {i j : Nat} {call : Call}
  {item : Shared Descriptor} {component : Component} {handle : WeakHandle}
  {listener : Option MeasureListener} {config : Tree.Config} {p : Program} {f : Frame}

/-- A panic takes the work off a thread up to what stops it. -/
theorem work_panic_self (s : Session) (i : Nat) (message : String) :
    (s.panic i message).work i = (s.work i).dropWhile fun f => !f.stopsPanic := by
  have hcomm (fs : List Frame) :
      (fs.dropWhile fun f => !f.stopsPanic).filter (fun f => !f.isServe) =
        (fs.filter fun f => !f.isServe).dropWhile fun f => !f.stopsPanic := by
    induction fs with
    | nil => rfl
    | cons f fs ih =>
        cases hstops : f.stopsPanic with
        | true =>
            have hserve : f.isServe = false := by
              cases f with
              | serve q => cases hstops
              | _ => rfl
            simp [hstops, hserve]
        | false => cases hserve : f.isServe <;> simp [hstops, hserve, ih]
  rw [panic, work_modifyThread, work, ← hcomm]
  cases s.threads[i]? with
  | none => rfl
  | some t => simp [Thread.panic]

theorem reply?_panic (hi : i < s.threads.length) (message : String) :
    (s.panic i message).reply? i = some (.trouble (.panic message)) := by
  rw [reply?, panic, modifyThread, List.getElem?_modify, List.getElem?_eq_getElem hi]
  simp [Thread.panic]

/-- Handing a layout over does nothing to holders. -/
theorem holders_acts_launchActs (t t' : Store) (r : Request) :
    (t'.acts (launchActs t r)).holders = t'.holders := by
  unfold launchActs handOverActs
  split
  · split <;> rfl
  · rfl

/-- The first step of a request for an item with a component records the constraints, and that is
all it does to holders. -/
theorem holders_of_openRequest (hf : s.top? i = some (.openRequest call))
    (hcomponent : (s.store.holders[call.holder]?.bind (·.state.item)).bind
      (·.value.component?) = some component)
    (hn : s.next? (.carry i) = some s') :
    s'.store.holders = (s.store.modifyState call.holder (·.request call.bounds)).holders := by
  have hopened : (s.store.openRequest call).1 =
      s.store.modifyState call.holder (·.request call.bounds) := by
    rw [Store.fst_openRequest, if_pos (by rw [hcomponent]; rfl)]
  rw [store_next? hn, momentActs_carry hf, ← hopened]
  show ((s.store.openRequest call).1.acts _).holders = _
  split
  · exact holders_acts_launchActs _ _ _
  · rfl

/-- The second step of a request whose tree is refused. -/
theorem of_refused (hf : s.top? i = some (.claimTree call item component handle listener))
    (hc : (s.store.claimTree call item component handle listener).2 = .refused config)
    (hn : s.next? (.carry i) = some s') :
    s'.store = (s.store.claimTree call item component handle listener).1 ∧
      s'.reply? i = some (.trouble (.panic "create_tree")) ∧
      s'.work i = (s.work i).tail.dropWhile (fun f => !f.stopsPanic) ∧
      ∀ k, k ≠ i → s'.work k = s.work k := by
  have hi := lt_off_of_top? hf
  have hc' : (s.off i).store.claimTree call item component handle listener =
      ((s.store.claimTree call item component handle listener).1, .refused config) :=
    Prod.ext rfl hc
  obtain rfl := eq_of_next?_carry hf hn
  have hlike := like_dismissSince ((s.off i).stepFrame i (.claimTree call item component handle
    listener)) s
  rw [hlike.store, reply?_dismissSince, hlike.work]
  have hothers (k : Nat) := hlike.work k
  simp only [hothers]
  rw [stepFrame, stepClaimTree, hc']
  dsimp only
  generalize hasked : (Session.write _ _).reportBuilding call.engine config = asked
  have hsame : Like { s.off i with
      store := (s.store.claimTree call item component handle listener).1 } asked := by
    rw [← hasked]
    exact (like_write _ _).trans (like_reportBuilding _ _ _)
  refine ⟨hsame.store, reply?_panic (by rw [hsame.count]; exact hi) _, ?_, fun k hk => ?_⟩
  · rw [work_panic_self, hsame.work, work_of_top? hf rfl, List.tail_cons]
    rfl
  · rw [(work_panic asked i _ k).2 hk, hsame.work]
    exact work_off s hk

/-- Giving up what is parked with a holder leaves all holders as they are if and only if there is
nothing. -/
theorem holders_takeParked_eq_iff {σ : Store} {h : Nat} {y : Holder} (hy : σ.holders[h]? = some y)
    (hl : y.state.slot.tree? = none) :
    (σ.modifyState h (·.takeParked)).holders = σ.holders ↔ σ.parked? h = none := by
  rw [Store.parked?_eq hy, ← Holder.State.takeParked_eq_self_iff hl]
  refine ⟨fun heq => ?_, fun heq => List.ext_getElem? fun k => ?_⟩
  · have hget := σ.getElem?_modifyState h h (·.takeParked)
    rw [heq, hy, Option.map_some, if_pos rfl] at hget
    exact (congrArg Holder.state (Option.some.inj hget)).symm
  · rw [σ.getElem?_modifyState]
    by_cases hk : h = k
    · subst hk
      rw [hy, Option.map_some, if_pos rfl, heq]
    · simp [hk]

/-- A holder without a tree and without a parked state has neither until a tree is built for it, and
that tree begins without a state. -/
theorem snapshot_of_nothing_parked {h : Nat} (hl : s.store.live? h = none)
    (hp : s.store.parked? h = none) (hrun : s.follow? ns = some s'')
    (hb : builtFor h s.store (s.runActs ns) = []) :
    s''.store.parked? h = none ∧
      ∀ (call' : Call) item' component' (handle' : WeakHandle) listener' z engine,
        call'.holder = h → s''.store.holders[h]? = some z → z.generation = handle'.generation →
        s''.store.engines[call'.engine]? = some engine →
        ∃ config', (s''.store.claimTree call' item' component' handle' listener').2.config? =
          some config' ∧ config'.snapshot = none := by
  obtain ⟨hlive, hparked⟩ := Store.parked?_acts hl hb
  rw [hp, ite_self] at hparked
  rw [← store_follow? hrun] at hlive hparked
  refine ⟨hparked, fun call' item' component' handle' listener' z engine hk hz hg he => ?_⟩
  subst hk
  have hslot : z.state.slot.tree? = none := (s''.store.live?_eq hz).symm.trans hlive
  refine ⟨Store.treeConfig z.state item' component' listener', ?_, ?_⟩
  · rw [Store.snd_claimTree_of_vacant hz he hg hslot]
    split <;> rfl
  · exact (Store.parked?_eq hz).symm.trans hparked

/-- A request on thread `i` that began in the session `u` and whose tree was refused in the session
`s`. -/
structure Refused (call : Call) (i : Nat) (config : Tree.Config) (u s s' : Session) : Prop where
  opened : u.top? i = some (.openRequest call)
  /-- The first step records the constraints, and does nothing else to holders. -/
  recorded : ∀ t, u.next? (.carry i) = some t →
    t.store.holders = (u.store.modifyState call.holder (·.request call.bounds)).holders
  /-- The engine was offered what was parked with the holder. -/
  snapshot : config.snapshot = s.store.parked? call.holder
  /-- The holder loses what was parked, the engine does not refuse the next tree, and nothing else
  in the store changes. -/
  store : s'.store = (s.store.modifyState call.holder (·.takeParked)).modifyEngine call.engine
    ({ · with refuses := false })
  unchanged_iff : s'.store.holders = s.store.holders ↔ s.store.parked? call.holder = none
  /-- If nobody else changed the holder after the first step, it is as it was before the request but
  for the constraints and for what was parked. -/
  left : ∀ t x, u.next? (.carry i) = some t →
    s.store.holders[call.holder]? = t.store.holders[call.holder]? →
    u.store.holders[call.holder]? = some x →
    s'.store.holders[call.holder]? = some { x with
      state := { x.state with requested := some call.bounds, slot := .empty } }
  /-- The panic ends the request, up to whatever stops it. -/
  reply : s'.reply? i = some (.trouble (.panic "create_tree"))
  unwound : s'.work i = (s.work i).tail.dropWhile fun f => !f.stopsPanic
  others : ∀ k, k ≠ i → s'.work k = s.work k
  /-- The holder goes on to be used. Whatever happens short of another tree, an engine that is asked
  for the next one is offered nothing. -/
  later : ∀ ns s'', s'.follow? ns = some s'' →
    builtFor call.holder s'.store (s'.runActs ns) = [] →
      s''.store.parked? call.holder = none ∧
        ∀ (call' : Call) item' component' (handle' : WeakHandle) listener' z engine,
          call'.holder = call.holder → s''.store.holders[call.holder]? = some z →
          z.generation = handle'.generation → s''.store.engines[call'.engine]? = some engine →
          ∃ config', (s''.store.claimTree call' item' component' handle' listener').2.config? =
            some config' ∧ config'.snapshot = none

/-- A layout request, waited for or in the background, whose engine panics when it is asked for a
tree: of all that is in the store the request changed the constraints of the holder, in its first
step, and what was parked with the holder, in its second one. It leaves the holder as it was but for
the constraints exactly if nothing was parked. -/
theorem refused_of_run (hrun : (ofProgram p).follow? ms = some s)
    (hf : s.top? i = some (.claimTree call item component handle listener))
    (hc : (s.store.claimTree call item component handle listener).2 = .refused config)
    (hn : s.next? (.carry i) = some s') :
    ∃ ks ns u, ms = ks ++ .carry i :: ns ∧ (ofProgram p).follow? ks = some u ∧
      Refused call i config u s s' := by
  obtain ⟨u, x, ns, ho⟩ := allOpened_of_run hrun _ _ _ _ _ _ (mem_work_of_top? hf rfl)
  obtain ⟨ks, hms, hks⟩ := ho.run
  obtain ⟨-, -, hcomponent, -⟩ := Reachable.sound ⟨p, ms, hrun⟩ |>.top hf
  obtain ⟨y, hy, -, hslot, hsnapshot, hstore⟩ := Store.of_refused_claimTree hc
  obtain ⟨hs', hreply, hwork, hothers⟩ := of_refused hf hc hn
  rw [hstore] at hs'
  have hopening : ∀ t, u.next? (.carry i) = some t →
      t.store.holders = (u.store.modifyState call.holder (·.request call.bounds)).holders := by
    have hread : (u.store.holders[call.holder]?.bind (·.state.item)).bind
        (·.value.component?) = some component := by
      rw [ho.holder, Option.bind_some, ho.item]
      exact hcomponent
    exact fun t ht => holders_of_openRequest ho.opened hread ht
  have hy' : s'.store.holders[call.holder]? = some { y with state := y.state.takeParked } := by
    rw [hs', Store.holders_modifyEngine, s.store.getElem?_modifyState, hy, Option.map_some,
      if_pos rfl]
  refine ⟨ks, ns, u, hms, hks, {
    opened := ho.opened
    recorded := hopening
    snapshot := hsnapshot.trans (Store.parked?_eq hy).symm
    store := hs'
    unchanged_iff := ?_
    left := fun t x hopen hsame hx => ?_
    reply := hreply
    unwound := hwork
    others := hothers
    later := fun ns s'' hfollow hb => ?_ }⟩
  · rw [hs', Store.holders_modifyEngine]
    exact holders_takeParked_eq_iff hy hslot
  · rw [hy, hopening t hopen, u.store.getElem?_modifyState, hx, Option.map_some,
      if_pos rfl] at hsame
    rw [hy', Option.some.inj hsame]
    rfl
  · have hlive : s'.store.live? call.holder = none := s'.store.live?_eq hy'
    have hparked : s'.store.parked? call.holder = none := Store.parked?_eq hy'
    exact snapshot_of_nothing_parked hlive hparked hfollow hb

/-! ### A state that is lost

A holder is laid out and evicted, so that the state of its tree is parked. The engine refuses the
next tree, and builds the one after that.
-/

namespace Lost

def upToRefusal : List Moment :=
  told (.component "c" "c" .byName) ++ told (.item "d" (.component "c") []) ++
    told (.engine "e" .standard { reportsBuilding := true }) ++
    told (.acquire "d" [] none "shared" (some "h")) ++
    [.give mainThread (.layout default "e" "" "h" false)] ++
    List.replicate 10 (.carry mainThread) ++
    told (.onTree "e" (some 0) (.update "n" (.bool true))) ++ told (.onHolder "h" .evict) ++
    told (.onEngine "e" .refuseNext) ++
    [.give mainThread (.layout default "e" "" "h" false)] ++ List.replicate 2 (.carry mainThread)

/-- Up to the step that builds the next tree. -/
def fromRefusal : List Moment :=
  [.carry mainThread, .give mainThread (.layout default "e" "" "h" false)] ++
    List.replicate 2 (.carry mainThread)

def start : Session := ofProgram { steps := [], scripts := [] }

def atRefusal : Session := (start.follow? upToRefusal).get (by decide)

def afterRefusal : Session := (atRefusal.next? (.carry mainThread)).get (by decide)

def atTree : Session := (afterRefusal.follow? fromRefusal).get (by decide)

def asked : Call := ⟨0, 0, "", default, false⟩

def shown : Component := ⟨0, .byName, "c"⟩

def first : Shared Descriptor := ⟨0, { content := .component shown }⟩

def state : Snapshot := Snapshot.empty.put "n" (.bool true)

/-- What the engine is offered when it refuses. -/
def offered : Tree.Config where
  root := shown
  policy := {}
  snapshot := some state
  clipsChildren := true
  wasMounted := false
  listener := none

def claimed (s : Session) : Store.Claim :=
  (s.store.claimTree asked first shown ⟨0, 0⟩ none).2

theorem run_atRefusal : start.follow? upToRefusal = some atRefusal := (Option.some_get _).symm

theorem top_atRefusal :
    atRefusal.top? mainThread = some (.claimTree asked first shown ⟨0, 0⟩ none) := rfl

theorem claimed_atRefusal : claimed atRefusal = .refused offered := by decide

/-- The holder does not have after the panic what it had before, and the next tree goes without. -/
theorem parked_is_lost :
    atRefusal.Reachable ∧
      atRefusal.top? mainThread = some (.claimTree asked first shown ⟨0, 0⟩ none) ∧
      claimed atRefusal = .refused offered ∧
      afterRefusal.reply? mainThread = some (.trouble (.panic "create_tree")) ∧
      atRefusal.store.parked? 0 = some state ∧ afterRefusal.store.parked? 0 = none ∧
      (claimed atTree).config?.map (·.snapshot) = some none :=
  ⟨⟨_, upToRefusal, run_atRefusal⟩, top_atRefusal, claimed_atRefusal, by decide, by decide,
    by decide, by decide⟩

theorem next_begins_anew :
    start.follow? upToRefusal = some atRefusal ∧ claimed atRefusal = .refused offered ∧
      afterRefusal.store.holders ≠ atRefusal.store.holders ∧
      ∃ config, (claimed atTree).config? = some config ∧ config.snapshot = none := by
  have hnext : atRefusal.next? (.carry mainThread) = some afterRefusal := (Option.some_get _).symm
  obtain ⟨ks, ns, u, -, -, hrefused⟩ :=
    refused_of_run run_atRefusal top_atRefusal claimed_atRefusal hnext
  have hrun : afterRefusal.follow? fromRefusal = some atTree := (Option.some_get _).symm
  obtain ⟨-, hlater⟩ := hrefused.later fromRefusal atTree hrun (by decide)
  refine ⟨run_atRefusal, claimed_atRefusal, fun hsame => ?_, ?_⟩
  · have hnone := hrefused.unchanged_iff.1 hsame
    exact absurd hnone (by decide)
  · obtain ⟨z, hz⟩ : ∃ z, atTree.store.holders[0]? = some z := ⟨_, rfl⟩
    obtain ⟨engine, he⟩ : ∃ engine, atTree.store.engines[0]? = some engine := ⟨_, rfl⟩
    have hg : z.generation = 0 := by
      have hgeneration : (atTree.store.holders[0]?).map (·.generation) = some 0 := by decide
      rw [hz] at hgeneration
      exact Option.some.inj hgeneration
    exact hlater asked first shown ⟨0, 0⟩ none z engine rfl hz hg he

end Lost

end Session

end Recycler

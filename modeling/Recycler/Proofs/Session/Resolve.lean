import Recycler.Proofs.Session.Reuse
import Recycler.Proofs.Session.Settle
import Recycler.Proofs.Session.Tracking

/-!
# What weak handles resolve to

A weak handle resolves for as long as its holder exists and was not released since the handle was
made, and a height written through it is taken for just as long (`weakHandles_of_run`). The
generation of a holder counts its releases, and whatever else happens to the holder leaves it alone.

Generations are numbers without bound here. Cut to 64 bits they tell the same, as long as there are
fewer than 2 ^ 64 releases between the making of a handle and its use.
-/

namespace Recycler.Session

open Store (Act)

variable {p : Program} {s s' t : Session} {i j h : Nat} {f : Frame} {m : Moment}
  {ms : List Moment} {w : WeakHandle}

/-- Whether the holder of a handle exists and was not released by any of the acts. -/
def lasts (s : Session) (w : WeakHandle) (as : List Act) : Bool :=
  s.isAlive w.holder && !as.any (Act.resets w.holder)

/-- The reply to the command that ended last on a thread. -/
def reply? (s : Session) (i : Nat) : Option Reply := s.threads[i]?.map (·.reply)

/-- The store after a height came in through a handle. -/
def heightTaken (s : Session) (w : WeakHandle) (height : Int32) (taken : Bool) : Store :=
  if taken then s.store.modifyState w.holder ({ · with height := some height }) else s.store

/-- What everybody finds who uses a handle: it is still good, or it is not. -/
structure Answers (s : Session) (w : WeakHandle) (good : Bool) : Prop where
  resolves : s.resolve? w = if good then some w.holder else none
  /-- A command that upgrades the handle gets the holder. -/
  upgraded : ∀ i weak into s', s.top? i = some (.command (.upgrade weak into)) →
    s.registers.weaks.get? weak = some w → s.next? (.carry i) = some s' →
      s'.store = s.store ∧ (s'.reply? i = some .done ↔ good = false) ∧
        ∀ name, into = some (some name) → s'.registers.handles =
          if good then s.registers.handles.put name w.holder else s.registers.handles
  /-- A factory that is called with the handle finds the holder. -/
  called : ∀ i factory s', s.top? i = some (.factory factory w) → s.next? (.carry i) = some s' →
    ∃ view, s'.events = s.events ++ [.factory factory.name view w] ∧ view.isSome = good
  /-- A command that writes a height through the handle is told whether it was taken. -/
  written : ∀ i weak height s', s.top? i = some (.command (.writeHeight weak height)) →
    s.registers.weaks.get? weak = some w → s.next? (.carry i) = some s' →
      s'.reply? i = some (.truth good) ∧ s'.store = s.heightTaken w height good
  /-- So is a measure listener that writes the height through the handle. -/
  measured : ∀ i l sequel size ready tree factory s',
    s.top? i = some (.layout l sequel (.notifyMeasured size ready)) →
    s.store.tree? l.tree = some tree → tree.config.listener = some ⟨factory, some w⟩ →
    factory.writesHeight → s.next? (.carry i) = some s' →
      s'.events = s.events ++ [.measured factory.name size (some good)] ∧
        s'.store = s.heightTaken w size.height good

/-! ## Replies and events -/

theorem reply?_answer (hi : i < s.threads.length) (r : Reply) :
    (s.answer i r).reply? i = some r := by
  rw [reply?, answer, modifyThread, List.getElem?_modify, List.getElem?_eq_getElem hi]
  simp [Thread.answer]

/-- What the end of a worker keeps, the end of several keeps. -/
theorem dismissSince_congr {α : Type} (g : Session → α) (hg : ∀ s q, g (s.dismiss q) = g s)
    (s before : Session) : g (s.dismissSince before) = g s := by
  unfold dismissSince
  dsimp only
  generalize List.reverse _ = queues
  induction queues generalizing s with
  | nil => rfl
  | cons q queues ih => exact (ih (s.dismiss q)).trans (hg s q)

theorem reply?_dismissSince (s before : Session) :
    (s.dismissSince before).reply? i = s.reply? i := by
  refine dismissSince_congr (·.reply? i) (fun s q => ?_) s before
  unfold dismiss
  split
  · simp only [reply?, write, List.getElem?_map, Option.map_map]
    rfl
  · rfl

theorem events_dismissSince (s before : Session) : (s.dismissSince before).events = s.events := by
  refine dismissSince_congr (·.events) (fun s q => ?_) s before
  unfold dismiss
  split <;> rfl

theorem registers_dismissSince (s before : Session) :
    (s.dismissSince before).registers = s.registers := by
  refine dismissSince_congr (·.registers) (fun s q => ?_) s before
  unfold dismiss
  split <;> rfl

theorem events_fire (s : Session) (i : Nat) (script : Option Nat) :
    (s.fire i script).events = s.events := by
  unfold fire
  split
  · rfl
  · split <;> rfl

theorem store_fire (s : Session) (i : Nat) (script : Option Nat) :
    (s.fire i script).store = s.store := by
  obtain ⟨calls, -, hl⟩ := s.like_fire i script
  exact hl.store

theorem events_view? (s : Session) (h : Nat) : (s.view? h).1.events = s.events := by
  unfold view? showHolder
  split
  · rfl
  · cases s.shown.idxOf? h <;> rfl

theorem isSome_view? (s : Session) (h : Nat) :
    (s.view? h).2.isSome = s.store.holders[h]?.isSome := by
  unfold view?
  split
  · next hx => rw [hx]; rfl
  · next x hx => rw [hx]; rfl

/-! ## The frame that is carried on -/

theorem eq_of_next?_carry (hf : s.top? i = some f) (h : s.next? (.carry i) = some s') :
    s' = ((s.off i).stepFrame i f).dismissSince s := by
  rw [next?, advance?_eq, hf, Option.bind_some] at h
  split at h
  · cases h
  · exact (Option.some.inj h).symm

/-- A frame that does not wait can be carried on. -/
theorem next?_carry_eq (hf : s.top? i = some f) (hb : s.isBlocked f = false) :
    s.next? (.carry i) = some (((s.off i).stepFrame i f).dismissSince s) := by
  rw [next?, advance?_eq, hf, Option.bind_some, hb]
  rfl

/-! ## Answers -/

theorem exists_of_isOfGeneration {u : Store} (hw : u.isOfGeneration w) :
    ∃ x, u.holders[w.holder]? = some x ∧ x.generation = w.generation := by
  unfold Store.isOfGeneration at hw
  split at hw
  · next x hx => exact ⟨x, hx, of_decide_eq_true hw⟩
  · cases hw

theorem writeHeight_eq_heightTaken {good : Bool}
    (hres : s.resolve? w = if good then some w.holder else none) (height : Int32) :
    (if (s.resolve? w).isSome then s.store.writeHeight w height else s.store) =
      s.heightTaken w height good := by
  cases good with
  | false => rw [hres]; rfl
  | true =>
      have hgen : s.store.isOfGeneration w := isOfGeneration_of_resolve? (by rw [hres]; rfl)
      rw [hres, Store.writeHeight, if_pos hgen]
      rfl

theorem weakHandle_off {name : String} (hw : s.registers.weaks.get? name = some w) (i : Nat) :
    (s.off i).weakHandle name = .ok w := by
  rw [weakHandle, show (s.off i).registers.weaks.get? name = some w from hw]
  rfl

/-- A command that upgrades a handle. -/
theorem stepCommand_upgrade {u : Session} {weak : String} (hw : u.weakHandle weak = .ok w)
    (into : Option Target) :
    u.stepCommand i (.upgrade weak into) = match u.resolve? w with
      | none => u.answer i .done
      | some h =>
        let s := (u.showHolder h).1.answer i (.count (u.showHolder h).2)
        match into with
        | some target => s.fill i target fun name => s.setHandle name h
        | none => s := by
  rw [stepCommand, perform, upgrade, hw]
  dsimp only [bind, Except.bind]
  cases u.resolve? w with
  | none => rfl
  | some h => cases into <;> rfl

/-- A command that writes a height through a handle. -/
theorem stepCommand_writeHeight {u : Session} {weak : String} (hw : u.weakHandle weak = .ok w)
    (height : Int32) :
    u.stepCommand i (.writeHeight weak height) =
      ({ u with store :=
          if (u.resolve? w).isSome then u.store.writeHeight w height else u.store }).answer i
        (.truth (u.resolve? w).isSome) := by
  rw [stepCommand, perform, writeHeight, hw]
  dsimp only [bind, Except.bind]
  cases u.resolve? w <;> rfl

/-- Whoever uses a handle finds what it resolves to. -/
theorem answers_of_resolve? {good : Bool}
    (hres : s.resolve? w = if good then some w.holder else none) : s.Answers w good where
  resolves := hres
  upgraded i weak into s' hf hw hn := by
    have hi := lt_of_top? hf
    obtain rfl := eq_of_next?_carry hf hn
    have hoff := (resolve?_off hf rfl w).trans hres
    rw [stepFrame, stepCommand_upgrade (weakHandle_off hw i), hoff]
    have hlike (u : Session) := u.like_dismissSince s
    rw [reply?_dismissSince, (hlike _).store, (hlike _).handles]
    cases good with
    | false =>
        refine ⟨rfl, ?_, fun name hname => rfl⟩
        rw [if_neg Bool.false_ne_true, reply?_answer (by rwa [length_off])]
        exact ⟨fun _ => rfl, fun _ => rfl⟩
    | true =>
        have hshow := (s.off i).like_showHolder w.holder
        rw [if_pos rfl]
        dsimp only
        generalize (s.off i).showHolder w.holder = shown at hshow ⊢
        have hcount : i < shown.1.threads.length := by rwa [hshow.count, length_off]
        have hreply {r : Reply} (hr : r ≠ .done) : some r = some .done ↔ true = false :=
          ⟨fun h => absurd (Option.some.inj h) hr, fun h => by cases h⟩
        rcases into with _ | _ | name
        · refine ⟨hshow.store, ?_, fun name hname => by cases hname⟩
          rw [reply?_answer hcount]
          exact hreply Reply.noConfusion
        · refine ⟨hshow.store, ?_, fun name hname => by cases hname⟩
          dsimp only [fill]
          rw [reply?_answer (by simpa [answer, modifyThread] using hcount)]
          exact hreply Reply.noConfusion
        · refine ⟨hshow.store, ?_, fun name' hname => ?_⟩
          · have hkept : ((shown.1.answer i (.count shown.2)).setHandle name w.holder).reply? i =
                (shown.1.answer i (.count shown.2)).reply? i := rfl
            dsimp only [fill]
            rw [hkept, reply?_answer hcount]
            exact hreply Reply.noConfusion
          · obtain rfl := Option.some.inj (Option.some.inj hname)
            exact congrArg (·.put name w.holder) hshow.handles
  called i factory s' hf hn := by
    obtain rfl := eq_of_next?_carry hf hn
    have hoff := (resolve?_off hf rfl w).trans hres
    rw [events_dismissSince, stepFrame, stepFactory, hoff]
    cases good with
    | false => exact ⟨none, events_fire _ _ _, rfl⟩
    | true =>
        refine ⟨((s.off i).view? w.holder).2, ?_, ?_⟩
        · rw [if_pos rfl, events_fire]
          exact congrArg (· ++ _) (events_view? _ _)
        · obtain ⟨x, hx, -⟩ := exists_of_isOfGeneration
            (isOfGeneration_of_resolve? (by rw [hres]; rfl))
          rw [isSome_view?]
          exact Option.isSome_iff_exists.2 ⟨x, hx⟩
  written i weak height s' hf hw hn := by
    have hi := lt_of_top? hf
    obtain rfl := eq_of_next?_carry hf hn
    have hoff := resolve?_off hf rfl w
    rw [stepFrame, stepCommand_writeHeight (weakHandle_off hw i), hoff, reply?_dismissSince,
      reply?_answer (by rwa [length_off]), (like_dismissSince _ _).store]
    refine ⟨?_, writeHeight_eq_heightTaken hres height⟩
    rw [hres]
    cases good <;> rfl
  measured i l sequel size ready tree factory s' hf htree hl hwrites hn := by
    obtain rfl := eq_of_next?_carry hf hn
    have hpush := resolve?_push hf (g := .layout l sequel (.notifyReady size ready))
      (by cases sequel <;> rfl) w
    have hlistener : (((s.off i).push i [.layout l sequel (.notifyReady size ready)]).store.tree?
        l.tree).bind (·.config.listener) = some ⟨factory, some w⟩ := by
      rw [store_push, show (s.off i).store.tree? l.tree = some tree from htree]
      exact hl
    rw [stepFrame, stepLayout, stepNotifyMeasured]
    dsimp only
    rw [hlistener]
    dsimp only
    rw [if_pos hwrites, events_dismissSince, (like_dismissSince _ _).store, hpush, events_fire,
      store_fire, ← writeHeight_eq_heightTaken hres size.height, hres]
    cases good <;> exact ⟨rfl, rfl⟩

/-! ## Runs -/

theorem not_bears_ofProgram (p : Program) : ¬ (ofProgram p).Bears w := by
  rintro (⟨name, hw⟩ | ⟨t, x, l, hx, -⟩ | ⟨j, f, hf, -⟩)
  · cases hw
  · cases hx
  · rw [work_ofProgram] at hf
    cases hf

theorem bears_of_give {c : Command}
    (hw : (({ s with events := [], logs := [] }).push i [.command c, .conclude]).Bears w) :
    s.Bears w := by
  rcases hw with hw | hw | ⟨j, f, hf, hw⟩
  · exact .inl hw
  · exact .inr (.inl hw)
  · rcases mem_work_push hf with hf | hf
    · simp only [List.mem_cons, List.not_mem_nil, or_false] at hf
      rcases hf with rfl | rfl <;> cases hw
    · exact .inr (.inr ⟨j, f, hf, hw⟩)

/-- A handle that is about was made in some step of the run. -/
theorem exists_makes_of_run (hrun : (ofProgram p).follow? ms = some t) (hw : t.Bears w) :
    ∃ before i after s, ms = before ++ .carry i :: after ∧
      (ofProgram p).follow? before = some s ∧ s.Makes i w := by
  refine follow?_history_induction (P := fun ms t => t.Bears w → ∃ before i after s,
    ms = before ++ .carry i :: after ∧ (ofProgram p).follow? before = some s ∧ s.Makes i w)
    ?_ ?_ hrun hw
  · exact fun hw => absurd hw (not_bears_ofProgram p)
  · rintro ms s m s' hs hn ih hw
    have hearlier (hw : s.Bears w) : ∃ before i after u, ms ++ [m] = before ++ .carry i :: after ∧
        (ofProgram p).follow? before = some u ∧ u.Makes i w := by
      obtain ⟨before, i, after, u, rfl, hu, hm⟩ := ih hw
      exact ⟨before, i, after ++ [m], u, by simp, hu, hm⟩
    cases happens_of_next? hn with
    | give c hi => exact hearlier (bears_of_give hw)
    | carry hf ht =>
        rcases (Reachable.sound ⟨p, ms, hs⟩).makes_of_turn hf ht hw with hw | hm
        · exact hearlier hw
        · exact ⟨ms, _, [], s, rfl, hs, hm⟩
    | look h => exact hearlier ((s.like_view? h).bears hw)

/-- The holder of a handle is ahead of it by the releases since it was made. -/
theorem generation_of_makes (hm : s.Makes i w) (hrun : s.follow? ms = some t) :
    ∃ y, t.store.holders[w.holder]? = some y ∧
      y.generation = w.generation + (s.runActs ms).countP (Act.resets w.holder) := by
  obtain ⟨x, hx, hw⟩ := hm.holder
  obtain ⟨y, hy⟩ : ∃ y, (s.store.acts (s.runActs ms)).holders[w.holder]? = some y :=
    ⟨_, List.getElem?_eq_getElem (Nat.lt_of_lt_of_le (List.getElem?_eq_some_iff.1 hx).1
      (s.store.length_le_acts _))⟩
  refine ⟨y, store_follow? hrun ▸ hy, ?_⟩
  rw [s.store.generation_acts _ hx hy]
  exact congrArg (· + _) (congrArg WeakHandle.generation hw).symm

/-- A handle resolves for as long as it lasts. -/
theorem resolve?_of_makes (hm : s.Makes i w) (hrun : s.follow? ms = some t) :
    t.resolve? w = if t.lasts w (s.runActs ms) then some w.holder else none := by
  obtain ⟨y, hy, hgen⟩ := generation_of_makes hm hrun
  have hnever : t.store.isOfGeneration w = !(s.runActs ms).any (Act.resets w.holder) := by
    rw [t.store.isOfGeneration_eq hy, Bool.eq_iff_iff, decide_eq_true_eq, Bool.not_eq_true',
      List.any_eq_false, ← List.countP_eq_zero, hgen]
    omega
  rw [resolve?, lasts, hnever]

/-- Every handle that is about was made in a step of the run, and is good for exactly as long as
its holder exists and was not released since that step. The generations of holder and handle tell as
much if they are cut to 64 bits, as long as there are fewer releases than fit into these. -/
theorem weakHandles_of_run (hrun : (ofProgram p).follow? ms = some t) (hw : t.Bears w) :
    (∃ before i after s, ms = before ++ .carry i :: after ∧
      (ofProgram p).follow? before = some s ∧ s.Makes i w) ∧
    ∀ before i after s, ms = before ++ .carry i :: after →
      (ofProgram p).follow? before = some s → s.Makes i w →
        t.Answers w (t.lasts w (s.runActs (.carry i :: after))) ∧
        ∀ x, t.store.holders[w.holder]? = some x →
          (s.runActs (.carry i :: after)).countP (Act.resets w.holder) < UInt64.size →
            (x.generation % UInt64.size = w.generation % UInt64.size ↔
              ∀ a ∈ s.runActs (.carry i :: after), a.resets w.holder = false) := by
  refine ⟨exists_makes_of_run hrun hw, ?_⟩
  rintro before i after s rfl hs hm
  have hafter : s.follow? (.carry i :: after) = some t := by
    rwa [follow?_append, hs, Option.bind_some] at hrun
  refine ⟨answers_of_resolve? (resolve?_of_makes hm hafter), fun x hx hfew => ?_⟩
  obtain ⟨y, hy, hgen⟩ := generation_of_makes hm hafter
  obtain rfl := Option.some.inj (hx.symm.trans hy)
  have hnone : (s.runActs (.carry i :: after)).countP (Act.resets w.holder) = 0 ↔
      ∀ a ∈ s.runActs (.carry i :: after), a.resets w.holder = false := by
    simp only [List.countP_eq_zero, Bool.not_eq_true]
  rw [← hnone, hgen]
  unfold UInt64.size at hfew ⊢
  omega

/-! ### A handle and the next item

A handle is made, its holder is released and goes to the next item of the pool.
-/

namespace NextItem

def start : Session := ofProgram { steps := [], scripts := [] }

def acquiring : List Moment := told (.acquire "d" [] none "shared" (some "h"))

def upToHandle : List Moment :=
  told (.component "c" "c" .byName) ++ told (.item "d" (.component "c") []) ++ acquiring ++
    [.give mainThread (.onHolder "h" (.downgrade "w"))]

def writing : List Moment := [.carry mainThread, .give mainThread (.writeHeight "w" 7)]

/-- As `writing`, with a release and the next item in between. -/
def reusing : List Moment :=
  [.carry mainThread, .give mainThread (.onHolder "h" .release)] ++
    List.replicate 3 (.carry mainThread) ++ acquiring ++
    [.give mainThread (.writeHeight "w" 7)]

def atHandle : Session := (start.follow? upToHandle).get (by decide)

def good : Session := (atHandle.follow? (.carry mainThread :: writing)).get (by decide)

def stale : Session :=
  (atHandle.follow? (.carry mainThread :: reusing)).get (by decide)

def handle : WeakHandle := ⟨0, 0⟩

theorem run_atHandle : start.follow? upToHandle = some atHandle := (Option.some_get _).symm

theorem makes_handle : atHandle.Makes mainThread handle :=
  ⟨⟨_, (Option.some_get (by decide)).symm, by decide⟩, .inl ⟨_, rfl, "h", by decide⟩⟩

/-- The holder of the handle takes the height until it is released, and no more afterwards. -/
theorem taken_until_release :
    (∃ s', good.next? (.carry mainThread) = some s' ∧ s'.reply? mainThread = some (.truth true)) ∧
      stale.store.holders.length = 1 ∧ ∃ s', stale.next? (.carry mainThread) = some s' ∧
        s'.reply? mainThread = some (.truth false) ∧ s'.store = stale.store := by
  obtain ⟨u, hu⟩ := Option.isSome_iff_exists.1
    (show (good.next? (.carry mainThread)).isSome by decide)
  obtain ⟨v, hv⟩ := Option.isSome_iff_exists.1
    (show (stale.next? (.carry mainThread)).isSome by decide)
  have hgood := ((weakHandles_of_run (t := good) (w := handle)
    (follow?_trans run_atHandle (Option.some_get _).symm) (.inl ⟨"w", by decide⟩)).2
      upToHandle mainThread writing atHandle rfl run_atHandle makes_handle).1
  have hstale := ((weakHandles_of_run (t := stale) (w := handle)
    (follow?_trans run_atHandle (Option.some_get _).symm) (.inl ⟨"w", by decide⟩)).2
      upToHandle mainThread reusing atHandle rfl run_atHandle makes_handle).1
  have hyes := (hgood.written mainThread "w" 7 u rfl (by decide) hu).1
  have hno := hstale.written mainThread "w" 7 v rfl (by decide) hv
  rw [show good.lasts handle (atHandle.runActs (.carry mainThread :: writing)) = true by decide]
    at hyes
  rw [show stale.lasts handle (atHandle.runActs (.carry mainThread :: reusing)) =
    false by decide] at hno
  exact ⟨⟨u, hu, hyes⟩, by decide, v, hv, hno⟩

end NextItem

end Recycler.Session

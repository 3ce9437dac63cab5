import Recycler.Proofs.Outline.Run
import Recycler.Proofs.Session.Dismissal
import Recycler.Proofs.Session.Failing

/-!
# Requests that are repeated

A request whose layout failed may be repeated by whoever still has the holder and the engine. What
the first attempt did before the layout is there already, so that the second one comes to its layout
at once, and finds everything as the first one did, but for what the engine was armed with
(`exists_reopened`). From there on all is as it would have been if the engine had not been armed in
the first place (`Window.madeUp`).
-/

namespace Recycler

/-- The engine that was armed with a failure, and is not any more after it. -/
def Failure.disarms? (t : TreeRef) : Failure → Option Nat
  | measure _ => some t.engine
  | released => none

namespace Store

variable {s s' : Store} {t : TreeRef} {failure : Failure} {e : Nat} {x : Holder} {r : Request}

/-- A layout that fails as it begins does nothing but to disarm its engine. -/
theorem enterLayout_of_failed (h : (s.enterLayout t).2 = .failed failure) :
    (s.enterLayout t).1 = s.unarm (failure.disarms? t) ∧
      ∀ e, failure.disarms? t = some e →
        ∃ reason, (s.engines[e]?).bind (·.armed) = some reason := by
  unfold enterLayout at h ⊢
  split at h
  · next engine tree he htree =>
      split at h
      · next hr =>
          obtain rfl := Entry.failed.inj h
          rw [if_pos hr]
          exact ⟨rfl, nofun⟩
      · next hr =>
          rw [if_neg hr]
          split at h
          · next reason harmed =>
              obtain rfl := Entry.failed.inj h
              refine ⟨rfl, fun e hdisarms => ⟨reason, ?_⟩⟩
              obtain rfl := Option.some.inj hdisarms
              rw [he, Option.bind_some, harmed]
          · split at h <;> cases h
  · obtain rfl := Entry.failed.inj h
    exact ⟨rfl, nofun⟩

/-- A holder that is ready for a request is not changed by the first step of another one like it. -/
theorem Readied.openRequest (h : s.Readied x r s') (hitem : x.state.item = some r.item)
    (hcomponent : r.item.value.component? = some r.component) :
    s'.openRequest r.call = (s', .live r) := by
  have hsame : s'.modifyState r.call.holder (·.request r.call.bounds) = s' := by
    have hholders : (s'.modifyState r.call.holder (·.request r.call.bounds)).holders =
        s'.holders := by
      refine List.ext_getElem? fun k => ?_
      rw [getElem?_modifyState]
      by_cases hk : r.call.holder = k
      · subst hk
        rw [h.holder]
        simp [Holder.State.request]
      · simp [hk]
    exact congrArg (fun holders => { s' with holders }) hholders
  unfold Store.openRequest
  simp only [h.holder, hitem, hcomponent, hsame, Slot.tree?]

end Store

namespace Session

variable {s t u v w : Session} {i : Nat} {call : Call} {ks ms : List Moment} {l : Layout}
  {r : Request} {stage : Stage} {failure : Failure} {f : Frame} {m : Moment} {E : Option Nat}

/-! ## Requests that keep nothing alive -/

/-- The holder and the engine of a request are referred to by registers, and its tree by the
holder. -/
structure Retains (s : Session) (r : Request) : Prop where
  handle : s.Holds r.call.holder
  engine : ∃ name, s.registers.engines.get? name = some r.call.engine
  tree : s.store.live? r.call.holder = some r.tree

theorem Retains.isAlive (h : s.Retains r) : s.isAlive r.call.holder := by
  have hpos : 0 < s.references r.call.holder := references_pos_iff.2 (.inl h.handle)
  simp [Session.isAlive, hpos]

theorem Retains.refersToEngine (h : s.Retains r) : s.refersToEngine r.call.engine := by
  obtain ⟨name, hname⟩ := h.engine
  have hany : s.registers.engines.entries.any (·.2 = r.call.engine) :=
    List.any_eq_true.2 ⟨_, Keyed.mem_of_find hname, decide_eq_true rfl⟩
  simp [Session.refersToEngine, hany]

theorem Retains.refersToTree (h : s.Retains r) : s.refersToTree r.tree := by
  obtain ⟨x, hx, htree⟩ := s.store.exists_of_live? h.tree
  have hany : s.store.holders.zipIdx.any fun k =>
      k.1.state.slot.tree? = some r.tree && s.isAlive k.2 :=
    any_zipIdx_iff.2 ⟨_, x, hx, by simp [htree, h.isAlive]⟩
  simp [Session.refersToTree, hany]

theorem Retains.layout (h : s.Retains r) :
    s.Secures (.layout r.layout (.commit r) stage) where
  holder _ hk := Option.some.inj hk ▸ h.isAlive
  engine _ he := Option.some.inj he ▸ h.refersToEngine
  tree _ ht := Option.some.inj ht ▸ h.refersToTree
  busy := rfl

theorem Retains.openRequest (h : s.Retains r) : s.Secures (.openRequest r.call) where
  holder _ hk := Option.some.inj hk ▸ h.isAlive
  engine _ he := Option.some.inj he ▸ h.refersToEngine
  tree _ ht := nomatch ht
  busy := rfl

theorem Retains.outline (h : s.Retains r) (E : Option Nat) : (s.outline E).Retains r :=
  ⟨h.handle, h.engine, by rw [store_outline, Store.live?_unarm, h.tree]⟩

/-! ## The first attempt -/

/-- A layout that is to deliver a failure after its first step failed in it. -/
theorem failed_of_deliver (hf : u.top? i = some (.layout l (.commit r) .enter))
    (hn : u.next? (.carry i) = some w)
    (hw : w.top? i = some (.layout l (.commit r) (.deliver (.error failure))))
    (hle : ((w.off i).work i).length ≤ ((u.off i).work i).length) :
    (u.off i).work i = (w.off i).work i ∧ (u.store.enterLayout l.tree).2 = .failed failure := by
  rcases work_layout hf hn with ⟨calls, stage, hafter, hgo⟩ | ⟨hnone, -⟩
  · rw [work_of_top? hw rfl] at hgo
    obtain rfl : calls = [] := by
      have hlen := congrArg List.length hgo
      rw [List.length_append, List.length_cons, List.length_cons] at hlen
      exact List.length_eq_zero_iff.1 (by omega)
    obtain ⟨hframe, hbelow⟩ := List.cons.inj hgo
    cases hframe
    exact ⟨hbelow.symm, (comesFrom_of_after? hafter).2⟩
  · cases hnone

theorem stepFrame_of_failed (h : (s.store.enterLayout l.tree).2 = .failed failure) :
    s.stepFrame i (.layout l (.commit r) .enter) =
      ({ s with store := s.store.unarm (failure.disarms? l.tree) } : Session).push i
        [.layout l (.commit r) (.deliver (.error failure))] := by
  have hunarmed := (Store.enterLayout_of_failed h).1
  rw [stepFrame, stepLayout, stepEnter]
  generalize s.store.enterLayout l.tree = entered at h hunarmed ⊢
  obtain ⟨σ, entry⟩ := entered
  obtain rfl : entry = .failed failure := h
  obtain rfl : σ = _ := hunarmed
  rfl

theorem registers_of_failed (hf : u.top? i = some (.layout l (.commit r) .enter))
    (hfailed : (u.store.enterLayout l.tree).2 = .failed failure)
    (hn : u.next? (.carry i) = some w)
    (hw : w.top? i = some (.layout l (.commit r) (.deliver (.error failure))))
    (hv : w.next? (.carry i) = some v) : v.registers = u.registers := by
  have hkept : w.registers = u.registers := by
    rw [eq_of_next?_carry hf hn, registers_dismissSince,
      stepFrame_of_failed (s := u.off i) hfailed]
    rfl
  rw [eq_of_next?_carry hw hv, registers_dismissSince, ← hkept]
  rfl

/-- If the step of a frame leaves the executors in use that are in use without it, no worker
ends. -/
theorem eq_stepFrame_of_secures (hi : i < s.threads.length) (hs : s.Secures f)
    (hkept : ∀ q ∈ s.queuesInUse, q ∈ (s.stepFrame i f).queuesInUse)
    (hn : (s.push i [f]).next? (.carry i) = some t) : t = s.stepFrame i f := by
  have heq := eq_of_next?_carry (top?_push_of_lt hi f []) hn
  rw [off_push] at heq
  rw [heq]
  exact dismissSince_of_subset fun q hq => hkept q ((mem_queuesInUse_push hi hs).1 hq)

/-- A layout that fails leaves behind what was there before it, but for what the engine was armed
with, if whoever asked for it still has the holder and the engine. -/
theorem outline_of_failed (hi : i < s.threads.length) (hr : s.Retains r)
    (hfailed : (s.store.enterLayout r.tree).2 = .failed failure)
    (hn : (s.push i [.layout r.layout (.commit r) .enter]).next? (.carry i) = some w)
    (hv : w.next? (.carry i) = some v) :
    v.outline none = s.outline (failure.disarms? r.tree) := by
  have hstep := stepFrame_of_failed (l := r.layout) (r := r) (i := i) hfailed
  obtain ⟨b, hdef⟩ : ∃ b, b = { s with store := s.store.unarm (failure.disarms? r.tree) } :=
    ⟨_, rfl⟩
  have hb : b.outline none = s.outline (failure.disarms? r.tree) := by
    rw [hdef]
    rfl
  have hrb : b.Retains r := by
    rw [hdef]
    exact ⟨hr.handle, hr.engine, (Store.live?_unarm ..).trans hr.tree⟩
  have hib : i < b.threads.length := by
    rw [hdef]
    exact hi
  have hfails : w = b.push i [.layout r.layout (.commit r) (.deliver (.error failure))] := by
    rw [hdef]
    refine (eq_stepFrame_of_secures hi hr.layout (fun q hq => ?_) hn).trans hstep
    rw [hstep, Request.layout, ← hdef]
    rw [← queuesInUse_of_outline hb] at hq
    exact (mem_queuesInUse_push hib hrb.layout).2 hq
  have hover : b.stepFrame i (.layout r.layout (.commit r) (.deliver (.error failure))) =
      b.answer i (.trouble (.failure failure)) := rfl
  have hsame := outline_answer (E := none) (s := b) (i := i) (.trouble (.failure failure))
  rw [hfails] at hv
  rw [eq_stepFrame_of_secures hib hrb.layout (fun q hq => ?_) hv, hover, hsame, hb]
  rwa [hover, queuesInUse_of_outline hsame]

/-! ## The second attempt -/

/-- A request for a holder that is ready for it comes to its layout in its first step. -/
theorem next?_openRequest (hi : i < s.threads.length) (hr : s.Retains r)
    (hwaits : r.call.background = false)
    (hopen : s.store.openRequest r.call = (s.store, .live r)) :
    (s.push i [.openRequest r.call]).next? (.carry i) =
      some (s.push i [.layout r.layout (.commit r) .enter]) := by
  have hstep : s.stepFrame i (.openRequest r.call) =
      s.push i [.layout r.layout (.commit r) .enter] := by
    rw [stepFrame, stepOpenRequest, hopen]
    dsimp only
    rw [launch, hwaits]
    rfl
  have htop := top?_push_of_lt hi (.openRequest r.call) []
  have hdismissed : (s.stepFrame i (.openRequest r.call)).dismissSince
      (s.push i [.openRequest r.call]) = s.stepFrame i (.openRequest r.call) := by
    refine dismissSince_of_subset fun q hq => ?_
    rw [hstep]
    exact (mem_queuesInUse_push hi hr.layout).2 ((mem_queuesInUse_push hi hr.openRequest).1 hq)
  rw [next?_carry_eq htop rfl, off_push, hdismissed, hstep]

/-- A request that is repeated comes to its layout at once, and finds all as it was the first time,
but for what the engine was armed with. -/
theorem exists_reopened (hi : i < s.threads.length) (hr : s.Retains r)
    (hwaits : r.call.background = false)
    (hopen : s.store.openRequest r.call = (s.store, .live r))
    (ht : t.outline none = (s.outline E).push i [.openRequest r.call]) :
    ∃ t', t.next? (.carry i) = some t' ∧
      t'.top? i = some (.layout r.layout (.commit r) .enter) ∧
      t'.outline none = (s.push i [.layout r.layout (.commit r) .enter]).outline E := by
  have hopen' : (s.outline E).store.openRequest r.call = ((s.outline E).store, .live r) := by
    rw [store_outline, Store.openRequest_unarm, hopen]
  have hnext := next?_openRequest (s := s.outline E) (i := i) (by rwa [length_threads_outline])
    (hr.outline E) hwaits hopen'
  have hmatch : t.outline none = ((s.outline E).push i [.openRequest r.call]).outline none := by
    rw [outline_push, outline_outline, ht]
  obtain ⟨t', ht', heq⟩ := next?_of_outline hmatch nofun hnext
  rw [outline_push, outline_outline] at heq
  refine ⟨t', ht', ?_, by rw [heq, outline_push]⟩
  rw [← top?_outline (E := none), heq]
  exact top?_push_of_lt (by rwa [length_threads_outline]) _ []

/-! ## Attempts that fail and are made up for -/

/-- From the first step of a request in `t` on, all goes as in a request that begins in `s` and
comes to its layout by its first step and `ks`. -/
structure AsSingle (s : Session) (i : Nat) (r : Request) (ks : List Moment) (t : Session) :
    Prop where
  /-- The same runs can be made, and lead to the same sessions, but for what was reported. -/
  runs : ∀ ns, (t.follow? (.carry i :: ns)).map (outline none) =
    (s.follow? (.carry i :: ks ++ ns)).map (outline none)
  /-- The same size is returned, and the stores are the same. -/
  returns : ∀ ns u size v, t.follow? (.carry i :: ns) = some u →
    u.top? i = some (.layout r.layout (.commit r) (.deliver (.ok size))) →
    u.next? (.carry i) = some v → v.reply? i = some (.size (some size)) ∧
      ∃ w, s.follow? (.carry i :: ks ++ (ns ++ [.carry i])) = some w ∧ w.store = v.store ∧
        w.reply? i = some (.size (some size))

/-- What becomes of a request that is repeated in `t`, after the layout failed to which the first
attempt came in `u`, by its first step in `s` and `ks`. -/
structure Retried (s : Session) (i : Nat) (r : Request) (ks : List Moment) (u : Session)
    (failure : Failure) (t : Session) : Prop where
  /-- The second attempt comes to its layout in its first step. All is as it was then, but the
  engine is not armed any more. -/
  reopens : ∃ t', t.next? (.carry i) = some t' ∧
    t'.top? i = some (.layout r.layout (.commit r) .enter) ∧
    t'.outline none = u.outline (failure.disarms? r.tree)
  /-- If the engine was armed before the first attempt, the second one ends like a single attempt on
  the engine without what it was armed with. -/
  single : (∀ e, failure.disarms? r.tree = some e →
      ∀ a ∈ s.runActs (.carry i :: ks), a.arms? e = none) →
    AsSingle (s.modifyStore (·.unarm (failure.disarms? r.tree))) i r ks t

/-- Requests that come to the same layout go on in the same way. -/
theorem asSingle_of_outline {t' : Session} (hs : s.follow? (.carry i :: ks) = some u)
    (ht : t.next? (.carry i) = some t') (h : t'.outline none = u.outline none) :
    AsSingle s i r ks t := by
  have hruns (ns : List Moment) : (t.follow? (.carry i :: ns)).map (outline none) =
      (s.follow? (.carry i :: ks ++ ns)).map (outline none) := by
    rw [follow?_cons, ht, follow?_append, hs]
    exact map_follow?_of_outline h ns
  refine ⟨hruns, fun ns a size b ha htop hb => ⟨reply?_deliver htop hb, ?_⟩⟩
  have hmap := hruns ns
  rw [ha] at hmap
  obtain ⟨c, hc, hmatch⟩ := Option.map_eq_some_iff.1 hmap.symm
  obtain ⟨d, hd, hend⟩ := next?_of_outline hmatch nofun hb
  have htop' : c.top? i = some (.layout r.layout (.commit r) (.deliver (.ok size))) := by
    rw [← top?_outline (E := none), hmatch, top?_outline, htop]
  refine ⟨d, ?_, congrArg (·.store) hend, reply?_deliver htop' hd⟩
  rw [← List.append_assoc]
  exact follow?_concat hc hd

/-- In a request whose layout fails at the end, it fails in the window of the request. -/
theorem Window.failing (hw : Window s i call (ks ++ [.carry i]) w)
    (hf : w.top? i = some (.layout l (.commit r) (.deliver (.error failure))))
    (hbelow : (w.off i).work i = (s.off i).work i) (hu : s.follow? (.carry i :: ks) = some u)
    (htop : u.top? i = some (.layout l (.commit r) .enter)) :
    Window s i call ks u ∧ u.next? (.carry i) = some w ∧
      (u.store.enterLayout l.tree).2 = .failed failure := by
  have hwork := work_of_top? hw.opened rfl
  have hwork' := work_of_top? htop rfl
  have hlast : u.next? (.carry i) = some w := by
    have hrun := hw.run
    rw [← List.cons_append, follow?_append, hu, Option.bind_some] at hrun
    obtain ⟨w', hw', hend⟩ := follow?_cons_eq_some.1 hrun
    obtain rfl := Option.some.inj hend
    exact hw'
  have hlonger := hw.goesOn ks u (List.prefix_append ks _) hu
  rw [hwork, hwork', List.length_cons, List.length_cons, ← hbelow] at hlonger
  obtain ⟨hsame, hfailed⟩ := failed_of_deliver htop hlast hf (Nat.le_of_succ_le_succ hlonger)
  have hends : (u.work i).length = (s.work i).length := by
    rw [hwork, hwork', hsame, hbelow, List.length_cons, List.length_cons]
  exact ⟨⟨hw.waits, hw.opened, hu, fun ns t hns ht =>
    hw.goesOn ns t (hns.trans (List.prefix_append ks _)) ht, hends⟩, hlast, hfailed⟩

/-- A request that is repeated right after its layout failed makes up for it. -/
theorem Window.retried (hw : Window s i call (ks ++ [.carry i]) w)
    (hf : w.top? i = some (.layout l (.commit r) (.deliver (.error failure))))
    (hquiet : s.undisturbed call.holder i ((s.off i).work i).length
      (.carry i :: (ks ++ [.carry i])))
    (hn : w.next? (.carry i) = some v) (hu : s.follow? (.carry i :: ks) = some u)
    (htop : u.top? i = some (.layout l (.commit r) .enter)) (hheld : v.Holds call.holder)
    (hengine : ∃ name, v.registers.engines.get? name = some call.engine)
    (ht : t.outline none = (v.push i [.openRequest call]).outline none) :
    Retried s i r ks u failure t := by
  obtain ⟨-, -, -, hbelow, -⟩ := hw.readied hf rfl hquiet
  obtain ⟨hwu, hlast, hfailed⟩ := hw.failing hf hbelow hu htop
  obtain ⟨rfl, rfl, hcomponent, -, x, hx, hitem, hready⟩ :=
    hwu.readied htop rfl (undisturbed_of_append hquiet)
  have hi := lt_off_of_top? htop
  have hretains : (u.off i).Retains r := by
    have hregisters := registers_of_failed htop hfailed hlast hf hn
    rw [Holds, hregisters] at hheld
    rw [hregisters] at hengine
    exact ⟨hheld, hengine, (Store.live?_eq _ hready.holder).trans rfl⟩
  rw [← push_off htop] at hlast
  have hover := outline_of_failed hi hretains hfailed hlast hn
  have hopened := exists_reopened hi hretains hw.waits (hready.openRequest hitem hcomponent)
    (t := t) (by rw [ht, outline_push, hover])
  rw [push_off htop] at hopened
  refine ⟨hopened, fun hnone => ?_⟩
  -- the engine that was armed at the end was so from the beginning
  have hunspent (e : Nat) (he : failure.disarms? r.tree = some e) :
      Store.Unspent e s.store (s.runActs (.carry i :: ks)) := by
    obtain ⟨reason, hreason⟩ := (Store.enterLayout_of_failed hfailed).2 e he
    rw [Store.armed_eq_account?, store_follow? hu] at hreason
    exact Store.unspent_of_armed (hnone e he) hreason
  obtain ⟨t', ht', -, hsame⟩ := hopened
  obtain ⟨u', hu', hmatch⟩ := follow?_of_outline (E := failure.disarms? r.tree) (s := s)
    (t := s.modifyStore (·.unarm (failure.disarms? r.tree))) rfl hunspent hu
  exact asSingle_of_outline hu' ht' (hsame.trans hmatch.symm)

/-- A request whose layout fails returns the failure and commits nothing; what it leaves behind is
what it did before the layout. If its layout failed at the end, and whoever asked for it still has
the holder and the engine, the request may be repeated, and this makes up for the failure. -/
theorem Window.madeUp (hw : Window s i call ms w)
    (hf : w.top? i = some (.layout l (.commit r) (.deliver (.error failure))))
    (hquiet : s.undisturbed call.holder i ((s.off i).work i).length (.carry i :: ms)) :
    (∃ v, w.next? (.carry i) = some v) ∧
      ∀ v, w.next? (.carry i) = some v → Failed s i call ms w r failure v ∧
        ∀ ks u t, ms = ks ++ [.carry i] → s.follow? (.carry i :: ks) = some u →
          u.top? i = some (.layout l (.commit r) .enter) → v.Holds call.holder →
          (∃ name, v.registers.engines.get? name = some call.engine) →
          t.outline none = (v.push i [.openRequest call]).outline none →
          Retried s i r ks u failure t := by
  refine ⟨⟨_, next?_carry_eq hf rfl⟩, fun v hn => ⟨hw.failed hf hquiet hn, ?_⟩⟩
  rintro ks u t rfl hu htop hheld hengine ht
  exact hw.retried hf hquiet hn hu htop hheld hengine ht

/-! ### A second attempt

A holder was laid out and evicted, so that the state of its tree is parked, and its engine is armed.
The next layout fails, on a tree that took the state over, and the one after it does not.
-/

namespace SecondAttempt

def asking : List Moment :=
  [.give mainThread (.layout default "e" "" "h" false), .carry mainThread]

def upToCall : List Moment :=
  told (.component "c" "c" .byName) ++ told (.item "d" (.component "c") []) ++
    told (.engine "e" .standard {}) ++ told (.acquire "d" [] none "shared" (some "h")) ++
    asking ++ List.replicate 9 (.carry mainThread) ++
    told (.onTree "e" (some 0) (.update "n" (.bool true))) ++ told (.onHolder "h" .evict) ++
    told (.onEngine "e" (.arm "broken")) ++ asking

def start : Session := ofProgram { steps := [], scripts := [] }

def atCall : Session := (start.follow? upToCall).get (by decide)

def atLayout : Session := (atCall.follow? (List.replicate 2 (.carry mainThread))).get (by decide)

def atFailure : Session := (atLayout.next? (.carry mainThread)).get (by decide)

def failed : Session := (atFailure.next? (.carry mainThread)).get (by decide)

def again : Session := (failed.follow? (.carry mainThread :: asking)).get (by decide)

def asked : Call := ⟨0, 0, "", default, false⟩

def request : Request where
  call := asked
  item := ⟨0, { content := .component ⟨0, .byName, "c"⟩ }⟩
  component := ⟨0, .byName, "c"⟩
  tree := ⟨0, 1⟩

/-- Up to the last step of the second attempt. -/
def atSize : Session :=
  (again.follow? (.carry mainThread :: List.replicate 5 (.carry mainThread))).get (by decide)

def succeeded : Session := (atSize.next? (.carry mainThread)).get (by decide)

theorem run_atLayout :
    atCall.follow? [.carry mainThread, .carry mainThread] = some atLayout :=
  (Option.some_get _).symm

theorem next_atLayout : atLayout.next? (.carry mainThread) = some atFailure :=
  (Option.some_get _).symm

theorem next_atFailure : atFailure.next? (.carry mainThread) = some failed :=
  (Option.some_get _).symm

theorem top_atLayout :
    atLayout.top? mainThread = some (.layout request.layout (.commit request) .enter) := rfl

theorem top_atFailure : atFailure.top? mainThread =
    some (.layout request.layout (.commit request) (.deliver (.error (.measure "broken")))) := rfl

theorem top_atSize : atSize.top? mainThread =
    some (.layout request.layout (.commit request) (.deliver (.ok ⟨320, 48⟩))) := rfl

theorem outline_again :
    again.outline none = (failed.push mainThread [.openRequest asked]).outline none := by
  rfl

theorem window_atCall :
    atCall.Window mainThread asked [.carry mainThread, .carry mainThread] atFailure where
  waits := rfl
  opened := rfl
  run := follow?_concat run_atLayout next_atLayout
  goesOn ns t hns ht := by
    have hall : ∀ k ≤ 2, (atCall.follow? (.carry mainThread ::
        [.carry mainThread, .carry mainThread].take k)).all fun t =>
          (atCall.work mainThread).length ≤ (t.work mainThread).length := by decide
    have hlen := hall ns.length hns.length_le
    rw [← List.prefix_iff_eq_take.1 hns, ht] at hlen
    exact of_decide_eq_true hlen
  ends := by decide

/-- The first attempt fails, and the second one ends as one would have that had found the engine
unarmed. -/
theorem second_makes_up :
    Failed atCall mainThread asked [.carry mainThread, .carry mainThread] atFailure request
        (.measure "broken") failed ∧
      succeeded.reply? mainThread = some (.size (some ⟨320, 48⟩)) ∧
        ∃ w, (atCall.modifyStore (·.unarm (some 0))).follow?
            (List.replicate 8 (.carry mainThread)) = some w ∧ w.store = succeeded.store ∧
            w.reply? mainThread = some (.size (some ⟨320, 48⟩)) := by
  obtain ⟨hfailed, hagain⟩ :=
    (window_atCall.madeUp top_atFailure (by decide)).2 failed next_atFailure
  have hretried := hagain [.carry mainThread] atLayout again rfl run_atLayout top_atLayout
    ⟨"h", by decide⟩ ⟨"e", by decide⟩ outline_again
  obtain ⟨hsize, hw⟩ := (hretried.single (by decide)).returns (List.replicate 5 (.carry mainThread))
    atSize ⟨320, 48⟩ succeeded (Option.some_get _).symm top_atSize (Option.some_get _).symm
  exact ⟨hfailed, hsize, hw⟩

end SecondAttempt

end Session

end Recycler

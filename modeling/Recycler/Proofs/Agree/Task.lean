import Recycler.Proofs.Agree.Request

/-!
# Calls and tasks

The ends of a layout request: a call that is waited for commits its layout (`exists_waited`), one in
the background is confirmed (`reaches_confirm`), and the layout it handed over is carried out by a
command (`leads_runWaiting`) or a worker (`reaches_serve`). Neither the confirmation nor what was
reported before makes a difference to the layout (`transparent_validate`, `transparent_after`).
-/

namespace Recycler

/-- The store with the height of a size written to a holder, if there is a size. -/
def Store.takeHeight (s : Store) (h : Nat) : Option Size → Store
  | some size => s.modifyState h ({ · with height := some size.height })
  | none => s

namespace Store

variable {s : Store} {h k q : Nat} {l : Layout} {queue : Queue} {r : Request} {y : Holder}

theorem isOfGeneration_modifyState (s : Store) (h : Nat) (f : Holder.State → Holder.State)
    (w : WeakHandle) : (s.modifyState h f).isOfGeneration w = s.isOfGeneration w := by
  unfold isOfGeneration
  rw [getElem?_modifyState]
  cases s.holders[w.holder]? with
  | none => rfl
  | some x =>
      dsimp only [Option.map_some]
      split <;> rfl

theorem modifyState_modifyState (s : Store) (h : Nat) (f g : Holder.State → Holder.State) :
    (s.modifyState h f).modifyState h g = s.modifyState h (g ∘ f) := by
  simp only [modifyState, modifyHolder, List.modify_modify_eq]
  rfl

theorem modifyState_comm (s : Store) (h k : Nat) {f g : Holder.State → Holder.State}
    (hfg : ∀ x, f (g x) = g (f x)) :
    (s.modifyState h f).modifyState k g = (s.modifyState k g).modifyState h f := by
  have hholders : ((s.modifyState h f).modifyState k g).holders =
      ((s.modifyState k g).modifyState h f).holders := by
    refine List.ext_getElem? fun j => ?_
    simp only [getElem?_modifyState, Option.map_map]
    congr 1
    funext x
    by_cases hh : h = j <;> by_cases hk : k = j <;> simp [hh, hk, hfg]
  exact congrArg (fun holders => { s with holders }) hholders

/-- A layout that is handed over to an empty queue is the next one to be taken from it. -/
theorem dequeue_enqueue (hq : s.queues[q]? = some queue) (hempty : queue.waiting = []) :
    (s.enqueue q l).dequeue q = (s, some l) := by
  have hqueue : (s.enqueue q l).queues[q]? = some { queue with waiting := [l] } := by
    simp [enqueue, modifyQueue, hq, hempty]
  have hqueues : ((s.enqueue q l).modifyQueue q ({ · with waiting := [] })).queues = s.queues := by
    refine List.ext_getElem? fun j => ?_
    simp only [enqueue, modifyQueue, List.getElem?_modify]
    by_cases hj : q = j
    · subst hj
      rw [hq]
      obtain ⟨name, hasWorker, waiting⟩ := queue
      obtain rfl : waiting = [] := hempty
      simp
    · simp [hj]
  unfold dequeue
  rw [hqueue]
  exact congrArg (fun queues => ({ s with queues }, some l)) hqueues

theorem confirmLayout_enqueue (s : Store) (q : Nat) (l : Layout) (r : Request) :
    (s.enqueue q l).confirmLayout r = (s.confirmLayout r).enqueue q l := by
  have hcurrent : (s.enqueue q l).isCurrent r = s.isCurrent r := rfl
  unfold confirmLayout
  rw [hcurrent]
  split <;> rfl

theorem snd_dequeue_of_empty (hq : s.queues[q]? = some queue) (hempty : queue.waiting = []) :
    (s.dequeue q).2 = none := by
  unfold dequeue
  rw [hq]
  obtain ⟨name, hasWorker, waiting⟩ := queue
  obtain rfl : waiting = [] := hempty
  rfl

theorem queues_confirmLayout (s : Store) (r : Request) :
    (s.confirmLayout r).queues = s.queues := by
  unfold confirmLayout
  split <;> rfl

theorem isCurrent_of_holder (hy : s.holders[r.call.holder]? = some y)
    (ht : y.state.slot.tree? = some r.tree) (hitem : y.state.item = some r.item) :
    s.isCurrent r := by
  rw [s.isCurrent_eq hy, Holder.State.isCurrent_iff]
  exact ⟨ht, r.item, hitem, Shared.same_self _⟩

/-- The one difference between the last steps of a call that was waited for and of one in the
background. -/
theorem commitLayout_eq (hr : s.isCurrent r) (size : Size) :
    s.commitLayout r size = (s.confirmLayout r).takeHeight r.call.holder (some size) := by
  rw [commitLayout, confirmLayout, if_pos hr, if_pos hr, takeHeight, modifyState_modifyState]
  rfl

theorem snd_dequeue_congr {t : Store} (h : t.queues = s.queues) (q : Nat) :
    (t.dequeue q).2 = (s.dequeue q).2 := by
  unfold dequeue
  rw [h]
  split <;> rfl

end Store

namespace Session

/-- The session with earlier events in front of those that were reported. -/
def after (s : Session) (es : List Event) : Session := { s with events := es ++ s.events }

/-- The scene in which a command is given to a thread. -/
def begun (s : Session) : Session := { s.scene with events := [] }

variable {b c d s s' mid : Session} {i j k h n q : Nat} {fs : List Frame} {item : Shared Descriptor}
  {component : Component} {t : TreeRef} {r : Request} {l : Layout}

/-! ## Beginning and end of a command -/

theorem At.start (hi : i < s.threads.length) : At s i [] s.scene s where
  scene := rfl
  count := rfl
  stack := by
    refine ⟨_, _, List.getElem?_eq_getElem hi, rfl, ?_⟩
    rw [Session.work, List.getElem?_eq_getElem hi]
    rfl
  others _ _ := rfl
  anchored _ hf := by cases hf

theorem At.ends (hat : At b i [] c s) (j : Nat) : s.work j = b.work j := by
  by_cases hj : j = i
  · subst hj
    exact hat.work
  · exact hat.others j hj

theorem Calm.ends (hb : b.Calm) (hat : At b i [] c s) : s.Calm := fun j f hf =>
  hb j f (hat.ends j ▸ hf)

theorem exists_give (hi : i < s.threads.length) (c : Command) :
    ∃ s', s.next? (.give i c) = some s' ∧ At s i [.command c, .conclude] s.begun s' := by
  refine ⟨_, if_pos hi, ?_⟩
  have hstart : At s i [] s.begun { s with events := [], logs := [] } :=
    (At.start hi).congr rfl rfl rfl
  exact hstart.pushPlain [.command c, .conclude] rfl

/-! ## The call -/

/-- A call begins with the first step of its request. -/
theorem leads_requestLayout {bounds : Bounds} {engine tag handle : String}
    {background : Bool} (hn : c.engine engine = .ok n) (hh : c.holder handle = .ok h)
    (fs : List Frame) :
    Leads b i (.command (.layout bounds engine tag handle background) :: fs) c
      (.openRequest ⟨h, n, tag, bounds, background⟩ :: fs) c := by
  refine .step rfl fun s hat => ⟨rfl, ?_⟩
  have hengine : (s.off i).engine engine = .ok n := by
    rw [← hn, Session.engine, Session.engine, hat.off.registers]
  have hholder : (s.off i).holder handle = .ok h := by
    rw [← hh, Session.holder, Session.holder, hat.off.registers]
  rw [stepFrame, stepCommand, perform, requestLayout, hengine, hholder]
  refine hat.off.push [_] fun g hg => ?_
  rw [List.mem_singleton.1 hg]
  exact ⟨rfl, rfl, fun k hk => Option.some.inj hk ▸ holds_of_holder hh⟩

/-- A frame that ends a command with a reply, and the end of the command. -/
theorem At.answered {f : Frame} {u : Session} {a : Reply} (hat : At b i [f, .conclude] c s)
    (hblocked : s.isBlocked f = false) (hu : At b i [.conclude] d u)
    (hstep : (s.off i).stepFrame i f = u.answer i a) :
    ∃ s₁ s₂, s.next? (.carry i) = some s₁ ∧ s₁.next? (.carry i) = some s₂ ∧
      s₁.top? i = some .conclude ∧ At b i [] d s₂ ∧ s₂.reply? i = some a := by
  obtain ⟨s₁, hn₁, hat₁, hreply₁⟩ := hat.carry hblocked (hstep ▸ hu.answer a)
  obtain ⟨s₂, hn₂, hat₂, hreply₂⟩ := hat₁.conclude
  refine ⟨s₁, s₂, hn₁, hn₂, hat₁.top?, hat₂, ?_⟩
  rw [hreply₂, hreply₁, hstep]
  exact reply?_answer hu.lt a

theorem At.reaches_answer {f : Frame} {u : Session} {a : Reply}
    (hat : At b i [f, .conclude] c s) (hf : f.isIncidental)
    (hblocked : s.isBlocked f = false) (hu : At b i [.conclude] d u)
    (hstep : (s.off i).stepFrame i f = u.answer i a) :
    s.Reaches i fun s' => At b i [] d s' ∧ s'.reply? i = some a := by
  obtain ⟨s₁, s₂, hn₁, hn₂, hf₁, hs₂⟩ := hat.answered hblocked hu hstep
  exact Reaches.trans (.step hat.top? hf hn₁ rfl) fun s' hs' => hs' ▸ .step hf₁ rfl hn₂ hs₂

/-- A call that is waited for, from the layout to the end. -/
theorem exists_waited (hb : b.Calm) {e : Engine} {x : Tree} (hc : d.Clear r.tree e x)
    (hat : At b i [.layout r.layout (.commit r) .enter, .conclude] d s) :
    ∃ m s', s.follow? (List.replicate m (.carry i)) = some s' ∧
      At b i [] ((d.laidOut r.layout).modifyStore
        (·.commitLayout r (d.store.measure r.layout))) s' ∧
      s'.reply? i = some (.size (some (d.store.measure r.layout))) := by
  obtain ⟨m, s₁, hrun, -, hat₁⟩ := leads_layout hb hc s hat
  have hdelivered := (hat₁.off.write (commitLogs r ((s₁.off i).store.isCurrent r))).modifyStore
    (·.commitLayout r (d.store.measure r.layout))
  obtain ⟨s₂, s₃, hn₂, hn₃, -, hat₃, hreply⟩ := hat₁.answered rfl hdelivered rfl
  refine ⟨m + 2, s₃, ?_, hat₃, hreply⟩
  rw [← List.replicate_append_replicate]
  exact follow?_trans hrun (follow?_cons_eq_some.2 ⟨s₂, hn₂, follow?_singleton hn₃⟩)

/-- A layout in the background, from its first step to its last. -/
theorem leads_background (hb : b.Calm) {e : Engine} {x : Tree} (hc : d.Clear l.tree e x)
    (fs : List Frame) : Leads b i (.layout l .background .enter :: fs) d fs (d.laidOut l) := by
  refine (leads_layout hb hc).trans (.step rfl fun s hat => ⟨rfl, ?_⟩)
  exact hat.off.answer .done

/-- A call in the background ends with the confirmation. -/
theorem reaches_confirm (hat : At b i [.confirm r, .conclude] d s) :
    s.Reaches i fun s' => At b i [] (d.modifyStore (·.confirmLayout r)) s' ∧
      s'.reply? i = some .done :=
  hat.reaches_answer rfl rfl (hat.off.modifyStore (·.confirmLayout r)) rfl

/-! ## The task -/

/-- The layout that waits in a queue is carried out on demand. -/
theorem leads_runWaiting (hb : b.Calm) {σ : Store} {count : Option Nat} {e : Engine} {x : Tree}
    (hq : c.store.dequeue q = (σ, some l)) (hnone : (σ.dequeue q).2 = none)
    (hcount : count ≠ some 0)
    (hc : Clear { c with store := σ } l.tree e x) (fs : List Frame) :
    Leads b i (.runWaiting q count 0 :: fs) c fs (laidOut { c with store := σ } l) := by
  have htaken : Leads b i (.runWaiting q count 0 :: fs) c
      (.layout l .background .enter :: .runWaiting q (count.map (· - 1)) 1 :: fs)
      { c with store := σ } := by
    refine .step rfl fun s hat => ⟨rfl, ?_⟩
    rw [stepFrame, stepRunWaiting, if_neg hcount, hat.off.store, hq]
    exact (hat.off.modifyStore fun _ => σ).pushPlain [_, _] rfl
  refine htaken.trans ((leads_background hb hc _).trans (.step rfl fun s hat => ⟨rfl, ?_⟩))
  have hnone' : ((s.off i).store.dequeue q).2 = none := by
    rw [hat.off.store, Store.snd_dequeue_congr (queues_laidOut _ l) q]
    exact hnone
  rw [stepFrame, stepRunWaiting]
  split
  · exact hat.off.answer _
  · split
    · exact hat.off.answer _
    · next heq =>
        rw [heq] at hnone'
        cases hnone'

theorem push_append (s : Session) (i : Nat) (fs gs : List Frame) :
    s.push i (fs ++ gs) = (s.push i gs).push i fs := by
  rw [Session.push, Session.push, Session.push, modifyThread, modifyThread, modifyThread,
    List.modify_modify_eq]
  congr 2
  funext t
  rw [Function.comp_apply, Thread.push, Thread.push, Thread.push, List.append_assoc]

/-- A worker takes the layout that waits in its queue. -/
theorem reaches_serve {σ : Store} (hf : s.top? k = some (.serve q))
    (hq : s.store.dequeue q = (σ, some l)) :
    s.Reaches k (At s k [.layout l .background .enter, .guard q] { s.scene with store := σ }) := by
  have hblocked : s.isBlocked (.serve q) = false := by
    unfold Store.dequeue at hq
    unfold isBlocked
    split at hq
    · next queue => simp [queue]
    · cases hq
  have hpushed : At s k [.layout l .background .enter, .guard q] { s.scene with store := σ }
      ((s.off k).stepServe k q) := by
    have hstore : (s.off k).store = s.store := rfl
    have hmodified : { s.off k with store := σ }.push k [.serve q] = s.modifyStore fun _ => σ :=
      congrArg (·.modifyStore fun _ => σ) (push_off hf)
    have hstep : (s.off k).stepServe k q =
        (s.modifyStore fun _ => σ).push k [.layout l .background .enter, .guard q] := by
      rw [stepServe, hstore, hq, ← hmodified]
      exact push_append _ k [.layout l .background .enter, .guard q] [.serve q]
    rw [hstep]
    exact ((At.start (lt_of_top? hf)).modifyStore fun _ => σ).pushPlain [_, _] rfl
  exact .step hf rfl (next?_carry_eq hf hblocked) (hpushed.dismissSince s)

/-! ## What makes no difference to the task -/

theorem transparent_after (es : List Event) : Transparent (·.after es) where
  registers _ := rfl
  scripts _ := rfl
  engines _ := rfl
  resolve? _ _ := rfl
  report s e := by simp [after, report]
  leave _ _ _ := rfl
  writeHeight _ _ _ := rfl
  settleLayout _ _ _ := rfl

theorem transparent_validate (h : Nat) :
    Transparent (·.modifyStore (·.modifyState h ({ · with valid := true }))) where
  registers _ := rfl
  scripts _ := rfl
  engines _ := rfl
  resolve? s w := by
    show (if s.isAlive w.holder && (s.store.modifyState h _).isOfGeneration w then some w.holder
      else none) = s.resolve? w
    rw [Store.isOfGeneration_modifyState]
    rfl
  report _ _ := rfl
  leave _ _ _ := rfl
  writeHeight s w height := by
    have hwrite : (s.store.modifyState h ({ · with valid := true })).writeHeight w height =
        (s.store.writeHeight w height).modifyState h ({ · with valid := true }) := by
      unfold Store.writeHeight
      rw [Store.isOfGeneration_modifyState]
      split
      · exact s.store.modifyState_comm _ _ fun _ => rfl
      · rfl
    exact congrArg (fun store => { s with store }) hwrite
  settleLayout _ _ _ := rfl

end Session
end Recycler

import Recycler.Proofs.Outline.Frame
import Recycler.Proofs.Session.Resolve

/-!
# Runs of outlines

A run can as well be made from a session that matches another one, and leads to sessions that match
(`follow?_of_outline`). What was replied, reported and logged may differ, and an engine need not be
armed, if in the run nobody arms it and no layout begins on a tree of it that was not released.
-/

namespace Recycler.Session

variable {E : Option Nat} {s s' t t' : Session} {i : Nat} {m : Moment} {ms : List Moment}

/-! ## The end of workers -/

section Workers

variable (E s)

theorem any_stack_outline (p : Frame → Bool) :
    ((s.outline E).threads.any fun t => t.stack.any p) = s.threads.any fun t => t.stack.any p := by
  rw [outline, List.any_map]
  rfl

@[simp] theorem refersToEngine_outline : (s.outline E).refersToEngine = s.refersToEngine := by
  funext e
  simp [refersToEngine, any_stack_outline]

@[simp] theorem refersToTree_outline : (s.outline E).refersToTree = s.refersToTree := by
  funext t
  simp [refersToTree, any_stack_outline]

@[simp] theorem policies_outline : (s.outline E).policies = s.policies := by
  have htrees : (s.store.unarm E).engines.map (·.trees) = s.store.engines.map (·.trees) := by
    refine List.ext_getElem? fun k => ?_
    simp [Function.comp_def]
  have hflat (engines : List Engine) (p : TreeRef → Bool) :
      (engines.zipIdx.flatMap fun e => (e.1.trees.zipIdx.filter fun t => p ⟨e.2, t.2⟩).map (·.1)) =
        (engines.map (·.trees)).zipIdx.flatMap fun e =>
          (e.1.zipIdx.filter fun t => p ⟨e.2, t.2⟩).map (·.1) := by
    rw [List.zipIdx_map, List.flatMap_map]
    rfl
  unfold policies
  simp only [hflat, store_outline, Store.holders_unarm, htrees, isAlive_outline,
    refersToTree_outline]

@[simp] theorem queuesInUse_outline : (s.outline E).queuesInUse = s.queuesInUse := by
  have hbusy : ((s.outline E).threads.flatMap fun t => t.stack.filterMap Frame.busy?) =
      s.threads.flatMap fun t => t.stack.filterMap Frame.busy? := by
    rw [outline, List.flatMap_map]
    rfl
  unfold queuesInUse
  rw [hbusy]
  simp

end Workers

theorem queuesInUse_of_outline (h : t.outline none = s.outline E) :
    t.queuesInUse = s.queuesInUse := by
  rw [← queuesInUse_outline none t, h, queuesInUse_outline]

/-- The end of a worker, without what is logged about it. -/
def retire (s : Session) (q : Nat) : Session :=
  match s.store.queues[q]? with
  | some { hasWorker := true, .. } => { s with threads := s.threads.map (Thread.retire q) }
  | _ => s

theorem outline_dismiss (q : Nat) : (s.dismiss q).outline E = (s.outline E).retire q := by
  unfold dismiss retire
  rw [store_outline, Store.queues_unarm]
  cases s.store.queues[q]? with
  | none => rfl
  | some queue =>
      obtain ⟨name, _ | _, waiting⟩ := queue
      · rfl
      · simp only [outline, write, List.map_map]
        rfl

theorem outline_dismissSince (before : Session) : (s.dismissSince before).outline E =
    (before.queuesInUse.filter (!s.queuesInUse.contains ·)).reverse.eraseDups.reverse.foldl retire
      (s.outline E) :=
  (List.foldl_hom (outline E) fun _ q => (outline_dismiss q).symm).symm

/-! ## Moments and runs -/

theorem top?_outline (i : Nat) : (s.outline E).top? i = s.top? i := by
  rw [top?, top?, getElem?_threads_outline]
  cases s.threads[i]? <;> rfl

@[simp] theorem work_outline (i : Nat) : (s.outline E).work i = s.work i := by
  rw [work, work, getElem?_threads_outline, Option.map_map]
  rfl

@[simp] theorem isBlocked_outline : (s.outline E).isBlocked = s.isBlocked := by
  funext f
  cases f with
  | layout l sequel stage => cases stage <;> simp [isBlocked]
  | _ => simp [isBlocked]

theorem advance?_outline (h : ∀ e, E = some e → Store.Unspent e s.store (s.acts i)) :
    ((s.outline E).advance? i).map (outline none) = (s.advance? i).map (outline E) := by
  rw [advance?_eq, advance?_eq, top?_outline, isBlocked_outline, ← outline_off]
  cases hf : s.top? i with
  | none => rfl
  | some f =>
      simp only [Option.bind_some]
      split
      · rfl
      · have hstep := stepFrame_outline (E := E) (s := s.off i) (i := i) f fun e he => by
          have hspared := h e he
          rwa [acts, hf] at hspared
        have huse := congrArg queuesInUse hstep
        rw [queuesInUse_outline, queuesInUse_outline] at huse
        simp only [Option.map_some, outline_dismissSince, hstep, huse, queuesInUse_outline]

theorem next?_outline {m : Moment}
    (h : ∀ e, E = some e → Store.Unspent e s.store (s.momentActs m)) :
    ((s.outline E).next? m).map (outline none) = (s.next? m).map (outline E) := by
  cases m with
  | give i c =>
      have hgiven : ({ s.outline E with events := [], logs := [] } : Session).outline none =
          ({ s with events := [], logs := [] } : Session).outline E := outline_outline E s
      rw [next?, next?, length_threads_outline]
      split
      · exact congrArg some (by rw [outline_push, outline_push, hgiven])
      · rfl
  | carry i => exact advance?_outline h
  | look k => exact congrArg some (by simp)

/-- A moment comes in a session that matches another one, and keeps them matched. -/
theorem next?_of_outline (ht : t.outline none = s.outline E)
    (h : ∀ e, E = some e → Store.Unspent e s.store (s.momentActs m)) (hn : s.next? m = some s') :
    ∃ t', t.next? m = some t' ∧ t'.outline none = s'.outline E := by
  have hmap : (t.next? m).map (outline none) = some (s'.outline E) := by
    rw [← next?_outline (E := none) nofun, ht, next?_outline h, hn]
    rfl
  exact Option.map_eq_some_iff.1 hmap

/-- A run can as well be made from a session that matches another one, and leads to sessions that
match. -/
theorem follow?_of_outline (ht : t.outline none = s.outline E)
    (h : ∀ e, E = some e → Store.Unspent e s.store (s.runActs ms)) (hrun : s.follow? ms = some s') :
    ∃ t', t.follow? ms = some t' ∧ t'.outline none = s'.outline E := by
  induction ms generalizing s t with
  | nil =>
      obtain rfl := Option.some.inj hrun
      exact ⟨t, rfl, ht⟩
  | cons m ms ih =>
      obtain ⟨u, hu, hrun⟩ := follow?_cons_eq_some.1 hrun
      rw [runActs_cons hu] at h
      obtain ⟨v, hv, hmatch⟩ := next?_of_outline ht
        (fun e he => (Store.unspent_append.1 (h e he)).1) hu
      obtain ⟨t', ht', hend⟩ := ih hmatch (fun e he => by
        rw [store_next? hu]
        exact (Store.unspent_append.1 (h e he)).2) hrun
      exact ⟨t', follow?_cons_eq_some.2 ⟨v, hv, ht'⟩, hend⟩

/-- Sessions that match make the same runs. -/
theorem map_follow?_of_outline (h : t.outline none = s.outline none) (ms : List Moment) :
    (t.follow? ms).map (outline none) = (s.follow? ms).map (outline none) := by
  have hmatch {s t : Session} (h : t.outline none = s.outline none) {s' : Session}
      (hs : s.follow? ms = some s') :
      (t.follow? ms).map (outline none) = some (s'.outline none) := by
    obtain ⟨t', ht, heq⟩ := follow?_of_outline h nofun hs
    rw [ht, Option.map_some, heq]
  cases hs : s.follow? ms with
  | some s' => exact hmatch h hs
  | none =>
      cases ht : t.follow? ms with
      | none => rfl
      | some t' =>
          have hs' := hmatch h.symm ht
          rw [hs] at hs'
          cases hs'

end Recycler.Session

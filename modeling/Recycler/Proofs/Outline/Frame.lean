import Recycler.Proofs.Outline.Command

/-!
# Frames on outlines

Carrying a frame on does the same to a session and to its outline, unless it arms the engine that is
not armed there, or begins a layout on a tree of this engine that was not released.
-/

namespace Recycler.Session

variable {E : Option Nat} {s : Session} {i : Nat}

theorem launch_outline (r : Request) : (s.outline E).launch i r = (s.launch i r).outline E := by
  unfold launch
  split
  · exact handOver_outline _ _
  · exact (outline_push _).symm

theorem stepOpenRequest_outline (call : Call) :
    ((s.outline E).stepOpenRequest i call).outline none = (s.stepOpenRequest i call).outline E := by
  unfold stepOpenRequest
  rw [store_outline, Store.openRequest_unarm]
  dsimp only
  rw [outline_withStore rfl]
  generalize ({ s with store := (s.store.openRequest call).1 } : Session) = t
  split <;> simp [launch_outline]

theorem stepFactory_outline (factory : Factory) (handle : WeakHandle) :
    ((s.outline E).stepFactory i factory handle).outline none =
      (s.stepFactory i factory handle).outline E := by
  unfold stepFactory
  rw [resolve?_outline]
  cases s.resolve? handle <;> simp

theorem stepClaimTree_outline (call : Call) (item : Shared Descriptor) (component : Component)
    (handle : WeakHandle) (listener : Option MeasureListener) :
    ((s.outline E).stepClaimTree i call item component handle listener).outline none =
      (s.stepClaimTree i call item component handle listener).outline E := by
  unfold stepClaimTree
  rw [store_outline, Store.claimTree_unarm]
  dsimp only
  rw [outline_withStore rfl]
  generalize ({ s with store := (s.store.claimTree call item component handle listener).1 } :
    Session) = t
  have hlaunch {u u' : Session} (r : Request) (h : u'.outline none = u.outline E) :
      (u'.launch i r).outline none = (u.launch i r).outline E := by
    rw [← launch_outline, h, launch_outline]
  split
  · simp
  · exact hlaunch _ (outline_outline ..)
  · refine hlaunch _ ?_
    simp [reportBuilding_outline]
  · simp [reportBuilding_outline]

theorem stepConfirm_outline (r : Request) :
    ((s.outline E).stepConfirm i r).outline none = (s.stepConfirm i r).outline E := by
  unfold stepConfirm
  simp [outline_modifyStore]

theorem stepMeasure_outline (l : Layout) (sequel : Sequel) :
    ((s.outline E).stepMeasure i l sequel).outline none = (s.stepMeasure i l sequel).outline E := by
  unfold stepMeasure
  simp only [store_outline, Store.measure_unarm, store_push, Store.getElem?_engines_unarm]
  cases s.store.engines[l.tree.engine]? with
  | none => simp
  | some x =>
      simp only [Option.map_some, Engine.manner_disarmIn]
      split <;> simp

theorem stepEnter_outline (l : Layout) (sequel : Sequel)
    (h : ∀ e, E = some e → (Store.Act.enterLayout l.tree).begins s.store e = false) :
    ((s.outline E).stepEnter i l sequel).outline none = (s.stepEnter i l sequel).outline E := by
  unfold stepEnter
  rw [store_outline, Store.enterLayout_unarm h]
  dsimp only
  rw [outline_withStore rfl]
  split <;> simp

theorem stepSettle_outline (l : Layout) (sequel : Sequel) (size : Size) :
    ((s.outline E).stepSettle i l sequel size).outline none =
      (s.stepSettle i l sequel size).outline E := by
  unfold stepSettle
  simp [outline_modifyStore]

theorem stepNotifyMeasured_outline (l : Layout) (sequel : Sequel) (size : Size)
    (ready : Option ReadyListener) :
    ((s.outline E).stepNotifyMeasured i l sequel size ready).outline none =
      (s.stepNotifyMeasured i l sequel size ready).outline E := by
  unfold stepNotifyMeasured
  rw [← outline_push]
  generalize s.push i [.layout l sequel (.notifyReady size ready)] = t
  simp only [store_outline, Store.tree?_unarm, resolve?_outline]
  split
  · simp
  · split
    · split
      · split <;> simp [outline_modifyStore]
      · simp
    · simp

theorem stepNotifyReady_outline (l : Layout) (sequel : Sequel) (size : Size)
    (ready : Option ReadyListener) :
    ((s.outline E).stepNotifyReady i l sequel size ready).outline none =
      (s.stepNotifyReady i l sequel size ready).outline E := by
  unfold stepNotifyReady
  cases ready <;> simp

theorem stepDeliver_outline (l : Layout) (sequel : Sequel) (outcome : Except Failure Size) :
    ((s.outline E).stepDeliver i l sequel outcome).outline none =
      (s.stepDeliver i l sequel outcome).outline E := by
  unfold stepDeliver
  split
  · simp [outline_modifyStore]
  all_goals simp

theorem stepGiveBack_outline (h : Nat) :
    ((s.outline E).stepGiveBack i h).outline none = (s.stepGiveBack i h).outline E := by
  unfold stepGiveBack
  rw [store_outline, isAlive_outline, Store.giveBack_unarm]
  dsimp only
  rw [outline_withStore rfl]
  simp

theorem stepRunWaiting_outline (q : Nat) (remaining : Option Nat) (count : Nat) :
    ((s.outline E).stepRunWaiting i q remaining count).outline none =
      (s.stepRunWaiting i q remaining count).outline E := by
  unfold stepRunWaiting
  split
  · simp
  · rw [store_outline, Store.dequeue_unarm]
    rcases s.store.dequeue q with ⟨σ, _ | l⟩
    · simp
    · dsimp only
      rw [outline_withStore rfl]
      simp

theorem stepServe_outline (q : Nat) :
    ((s.outline E).stepServe i q).outline none = (s.stepServe i q).outline E := by
  unfold stepServe
  rw [store_outline, Store.dequeue_unarm]
  rcases s.store.dequeue q with ⟨σ, _ | l⟩
  · simp
  · dsimp only
    rw [outline_withStore rfl]
    simp

theorem stepReport_outline (name : Option String) :
    (s.stepReport i name).outline E = s.outline E := by
  unfold stepReport
  split <;> rfl

theorem stepGuard_outline (q : Nat) : (s.stepGuard i q).outline E = s.outline E := by
  unfold stepGuard
  split <;> rfl

theorem stepScript_outline (steps : List Step) :
    ((s.outline E).stepScript i steps).outline none = (s.stepScript i steps).outline E := by
  unfold stepScript
  split <;> simp

theorem stepLayout_outline (l : Layout) (sequel : Sequel) (stage : Stage)
    (h : ∀ e, E = some e → stage = .enter →
      (Store.Act.enterLayout l.tree).begins s.store e = false) :
    ((s.outline E).stepLayout i l sequel stage).outline none =
      (s.stepLayout i l sequel stage).outline E := by
  cases stage with
  | enter => exact stepEnter_outline l sequel fun e he => h e he rfl
  | gate g =>
      unfold stepLayout
      simp
  | measure => exact stepMeasure_outline ..
  | settle size => exact stepSettle_outline ..
  | notifyMeasured size ready => exact stepNotifyMeasured_outline ..
  | notifyReady size ready => exact stepNotifyReady_outline ..
  | deliver outcome => exact stepDeliver_outline ..

/-- A frame is carried on the same way if this neither arms the engine nor begins a layout on it. -/
theorem stepFrame_outline (f : Frame)
    (h : ∀ e, E = some e → Store.Unspent e s.store (s.frameActs i f)) :
    ((s.outline E).stepFrame i f).outline none = (s.stepFrame i f).outline E := by
  cases f with
  | command c =>
      refine stepCommand_outline c ?_
      rintro name e reason he rfl hE
      have hspared := h e hE
      rw [frameActs_command, commandActs_onEngine he] at hspared
      have harms : (Store.Act.changeEngine e (.arm reason)).arms? e = none := hspared.1.1
      simp [Store.Act.arms?] at harms
  | script steps => exact stepScript_outline steps
  | report name =>
      show ((s.outline E).stepReport i name).outline none = (s.stepReport i name).outline E
      rw [stepReport_outline, stepReport_outline, outline_outline]
  | conclude => exact outline_outline E s
  | openRequest call => exact stepOpenRequest_outline call
  | factory factory handle => exact stepFactory_outline factory handle
  | claimTree call item component handle listener => exact stepClaimTree_outline ..
  | layout l sequel stage =>
      refine stepLayout_outline l sequel stage fun e he hstage => ?_
      subst hstage
      exact (h e he).1.2
  | confirm r => exact stepConfirm_outline r
  | giveBack k => exact stepGiveBack_outline k
  | runWaiting q remaining count => exact stepRunWaiting_outline q remaining count
  | serve q => exact stepServe_outline q
  | guard q =>
      show ((s.outline E).stepGuard i q).outline none = (s.stepGuard i q).outline E
      rw [stepGuard_outline, stepGuard_outline, outline_outline]

end Recycler.Session

import Recycler.Proofs.Session.Rest

/-!
# Steps of a program

A step of a program is an unbroken run: the command is given to the main thread, and threads are
carried on until none can go on (`exists_follow?_runStep`). A release is not interrupted in it,
since the thread that began it goes on first.
-/

namespace Recycler.Session

variable {s s' t : Session} {i k : Nat} {f : Frame}

/-- A release that was begun is on top of thread `i`, and there is no other. -/
def Uninterrupted (s : Session) (i : Nat) : Prop :=
  s.isReleasing → (s.top? i).any Frame.isGiveBack ∧ (s.off i).isReleasing = false

theorem not_isReleasing (h : ∀ j k, .giveBack k ∉ s.work j) : s.isReleasing = false := by
  rw [Bool.eq_false_iff]
  intro hrel
  obtain ⟨j, k, hmem⟩ := isReleasing_iff.1 hrel
  exact h j k hmem

theorem not_mem_of_not_isReleasing (h : s.isReleasing = false) (j k : Nat) :
    .giveBack k ∉ s.work j := by
  intro hmem
  rw [isReleasing_iff.2 ⟨j, k, hmem⟩] at h
  cases h

theorem lt_of_top? (hf : s.top? i = some f) : i < s.threads.length := by
  obtain ⟨t, ht, -⟩ := Option.bind_eq_some_iff.1 hf
  exact (List.getElem?_eq_some_iff.1 ht).1

theorem length_off (s : Session) (i : Nat) : (s.off i).threads.length = s.threads.length :=
  List.length_modify ..

theorem lt_off_of_top? (hf : s.top? i = some f) : i < (s.off i).threads.length := by
  rw [length_off]
  exact lt_of_top? hf

theorem top?_push_of_lt (hi : i < s.threads.length) (g : Frame) (fs : List Frame) :
    (s.push i (g :: fs)).top? i = some g := by
  simp [top?, Session.push, modifyThread, hi, Thread.push]

theorem top?_push (hf : s.top? i = some f) (g : Frame) (fs : List Frame) :
    ((s.off i).push i (g :: fs)).top? i = some g := top?_push_of_lt (lt_off_of_top? hf) g fs

/-- Putting a frame on a thread and taking it off again changes nothing. -/
theorem off_push (s : Session) (i : Nat) (g : Frame) : (s.push i [g]).off i = s := by
  have hsame : (s.threads.modify i fun t => t.push [g]).modify i
      (fun t => { t with stack := t.stack.tail }) = s.threads := by
    rw [List.modify_modify_eq]
    exact List.modify_id i s.threads
  rw [off, Session.push, modifyThread, modifyThread, hsame]

/-- Taking a frame off a thread and putting it on again changes nothing. -/
theorem push_off (hf : s.top? i = some f) : (s.off i).push i [f] = s := by
  obtain ⟨t, ht, hhead⟩ := Option.bind_eq_some_iff.1 hf
  obtain ⟨rest, hrest⟩ := List.head?_eq_some_iff.1 hhead
  have hsame : (s.threads.modify i fun t => { t with stack := t.stack.tail }).modify i
      (·.push [f]) = s.threads := by
    refine List.ext_getElem? fun j => ?_
    rw [List.modify_modify_eq, List.getElem?_modify]
    by_cases hj : i = j
    · subst hj
      rw [ht]
      obtain ⟨stack, reply⟩ := t
      obtain rfl : stack = f :: rest := hrest
      simp [Thread.push]
    · simp [hj]
  rw [off, Session.push, modifyThread, modifyThread, hsame]

/-- Only workers that wait end. -/
theorem top?_dismiss (hf : s.top? i = some f) (hs : f.isServe = false) (q : Nat) :
    (s.dismiss q).top? i = some f := by
  unfold dismiss
  split
  · obtain ⟨t, ht, hf⟩ := Option.bind_eq_some_iff.1 hf
    obtain ⟨rest, hrest⟩ := List.head?_eq_some_iff.1 hf
    have hserves : f.serves q = false := by
      cases f with
      | serve => cases hs
      | _ => rfl
    simp [top?, write, ht, Thread.retire, hrest, hserves]
  · exact hf

theorem top?_foldl_dismiss (queues : List Nat) (hf : s.top? i = some f) (hs : f.isServe = false) :
    (queues.foldl dismiss s).top? i = some f := by
  induction queues generalizing s with
  | nil => exact hf
  | cons q queues ih => exact ih (top?_dismiss hf hs q)

theorem stepFrame_release {name : String} {n : Nat}
    (hn : s.registers.handles.get? name = some n) (i : Nat) :
    s.stepFrame i (.command (.onHolder name .release)) = s.release i name n := by
  simp only [Session.stepFrame, stepCommand, perform, performOnHolder, holder, hn, need]
  rfl

/-- What a release leaves on the stack. -/
theorem release_spec (hf : s.top? i = some f) (name : String) (n : Nat) {o : Session}
    (ht : (((s.off i).release i name n).dismissSince o) = t) :
    t.top? i = some (.giveBack n) ∧ ∀ j, (t.off i).work j = (s.off i).work j := by
  have hlike := like_dismissSince ((s.off i).release i name n) o
  have hpushed : ((s.off i).release i name n).top? i = some (.giveBack n) := top?_push hf _ []
  have htop : t.top? i = some (.giveBack n) := ht ▸ top?_foldl_dismiss _ hpushed rfl
  have hlt := lt_off_of_top? hf
  have hwork (j : Nat) : t.work j = ((s.off i).push i [.giveBack n]).work j := by
    rw [← ht, hlike.work]
    rfl
  refine ⟨htop, fun j => ?_⟩
  by_cases hj : j = i
  · subst hj
    have h := work_eq_of_top? htop
    rw [hwork, work_push, if_pos ⟨rfl, hlt⟩] at h
    exact (List.append_cancel_left h).symm
  · rw [work_off t hj, hwork, work_push, if_neg fun h => hj h.1]

/-- A release is begun by the frame on top of a thread, and is on top of it then. -/
theorem Uninterrupted.advance? (hu : s.Uninterrupted i) (h : s.advance? k = some t)
    (hk : s.isReleasing → k = i) : t.Uninterrupted k := by
  have hoff : (s.off k).isReleasing = false := by
    cases hrel : s.isReleasing with
    | true => exact hk hrel ▸ (hu hrel).2
    | false =>
        obtain ⟨f, hf, -⟩ := turn_of_advance? h
        exact not_isReleasing fun j n hmem =>
          not_mem_of_not_isReleasing hrel j n ((work_off_suffix hf j).subset hmem)
  have hnone := not_mem_of_not_isReleasing hoff
  obtain ⟨f, hf, ht⟩ := turn_of_advance? h
  intro hrel
  obtain ⟨j, n, hmem⟩ := isReleasing_iff.1 hrel
  obtain ⟨name, hn, rfl⟩ : ∃ name, (s.off k).registers.handles.get? name = some n ∧
      f = .command (.onHolder name .release) := by
    rcases ht.mem_work hmem with hmem | hmem | ⟨-, fs, hfs, hmem, -⟩
    · exact absurd hmem (hnone j n)
    · cases hmem
    · exact of_giveBack_ensues hfs hmem
  rw [advance?_eq, hf, Option.bind_some] at h
  rw [stepFrame_release hn k] at h
  obtain ⟨htop, hwork⟩ := release_spec hf name n (Option.some.inj h)
  refine ⟨by rw [htop]; rfl, not_isReleasing fun j m hmem => ?_⟩
  exact hnone j m (hwork j ▸ hmem)

theorem next?_of_advanceAny? (hu : s.Uninterrupted i) (h : s.advanceAny? i = some (t, k)) :
    s.next? (.carry k) = some t ∧ s.interrupts (.carry k) = false ∧ t.Uninterrupted k := by
  have hadvance : s.advance? k = some t := by
    obtain ⟨j, -, hj⟩ := List.exists_of_findSome?_eq_some h
    obtain ⟨u, hu, heq⟩ := Option.map_eq_some_iff.1 hj
    obtain ⟨rfl, rfl⟩ := Prod.mk.inj heq
    exact hu
  have hk : s.isReleasing → k = i := by
    intro hrel
    have hgive := (hu hrel).1
    cases hf : s.top? i with
    | none =>
        rw [hf] at hgive
        cases hgive
    | some f =>
        rw [hf] at hgive
        cases f with
        | giveBack n =>
            obtain ⟨u, hu⟩ : ∃ u, s.advance? i = some u :=
              ⟨_, by rw [advance?_eq, hf, Option.bind_some, if_neg (by exact Bool.false_ne_true)]⟩
            rw [advanceAny?, List.findSome?_cons, hu] at h
            obtain ⟨-, rfl⟩ := Prod.mk.inj (Option.some.inj h)
            rfl
        | _ => cases hgive
  refine ⟨hadvance, ?_, hu.advance? hadvance hk⟩
  rw [← Bool.not_eq_true, interrupts, Bool.and_eq_true]
  rintro ⟨hrel, hnot⟩
  obtain rfl := hk hrel
  rw [(hu hrel).1] at hnot
  cases hnot

/-- Carrying threads on is an unbroken run. -/
theorem exists_follow?_settle (fuel : Nat) (hu : s.Uninterrupted i) :
    ∃ ms, s.unbroken ms ∧ s.follow? ms = some (s.settle fuel i) := by
  induction fuel generalizing s i with
  | zero => exact ⟨[], rfl, rfl⟩
  | succ fuel ih =>
      rw [settle]
      cases h : s.advanceAny? i with
      | none => exact ⟨[], rfl, rfl⟩
      | some next =>
          obtain ⟨t, k⟩ := next
          obtain ⟨hnext, hm, ht⟩ := next?_of_advanceAny? hu h
          obtain ⟨ms, hwhole, hms⟩ := ih ht
          exact ⟨.carry k :: ms, (unbroken_cons hnext).2 ⟨hm, hwhole⟩,
            follow?_cons_eq_some.2 ⟨t, hnext, hms⟩⟩

/-- Carrying out a step of a program is an unbroken run, if no release is under way before. -/
theorem exists_follow?_runStep (fuel : Nat) (hlt : mainThread < s.threads.length)
    (hrel : s.isReleasing = false) (step : Step) :
    ∃ ms, s.unbroken ms ∧ s.follow? ms = some (s.runStep fuel step).1 := by
  have hgive : s.next? (.give mainThread step.command) = some
      ({ s with events := [], logs := [] }.push mainThread [.command step.command, .conclude]) :=
    if_pos hlt
  generalize hgiven : { s with events := [], logs := [] }.push mainThread
    [.command step.command, .conclude] = t at hgive
  have hnone : t.isReleasing = false := by
    refine not_isReleasing fun j k hmem => ?_
    rw [← hgiven] at hmem
    rcases mem_work_push hmem with hmem | hmem
    · simp at hmem
    · exact not_mem_of_not_isReleasing hrel j k hmem
  obtain ⟨ms, hwhole, hms⟩ := exists_follow?_settle (i := mainThread) fuel fun h => by
    rw [hnone] at h
    cases h
  have hrun := follow?_cons_eq_some.2 ⟨t, hgive, hms⟩
  have hunbroken := (unbroken_cons hgive).2 ⟨hrel, hwhole⟩
  dsimp only [runStep]
  rw [hgiven]
  cases step.handle.bind fun name => (t.settle fuel mainThread).registers.handles.get? name with
  | none => exact ⟨_, hunbroken, hrun⟩
  | some h =>
      exact ⟨_ ++ [.look h], (unbroken_append hrun).2 ⟨hunbroken, rfl⟩,
        follow?_trans hrun (follow?_cons_eq_some.2 ⟨_, rfl, rfl⟩)⟩

end Recycler.Session

import Recycler.Proofs.Session.Resolve
import Recycler.Proofs.Session.Window

/-!
# The course of a layout

A layout is carried out on its thread by several steps, with callbacks on top of it in between and
other threads at work. Its `Course` is a run from the session in which it begins to one in which it
is at some stage, with the frames below it as they were all along. `Stage.after?` says to what stage
a step leads, and the steps that the layout itself made in its course, in their order, form a `Path`
(`Course.path`). Every layout under way in a run has a course (`exists_course_of_run`).
-/

namespace Recycler

/-- The stage that a layout comes to by a step on a store, if the step is not its last one. -/
def Stage.after? (s : Store) (l : Layout) : Stage → Option Stage
  | .enter =>
    some <| match (s.enterLayout l.tree).2 with
      | .failed failure => .deliver (.error failure)
      | .free (some g) => .gate g
      | .free none => .measure
  | .gate _ => some .measure
  | .measure => some (.settle (s.measure l))
  | .settle size => some (.notifyMeasured size ((s.tree? l.tree).bind (·.readyListener)))
  | .notifyMeasured size ready => some (.notifyReady size ready)
  | .notifyReady size _ => some (.deliver (.ok size))
  | .deliver _ => none

theorem Stage.next_of_after? {s : Store} {l : Layout} {stage stage' : Stage}
    (h : stage.after? s l = some stage') : stage.Next stage' := by
  cases stage with
  | enter =>
      obtain rfl := Option.some.inj h
      clear h
      split
      · exact .fail _
      · exact .wait _
      · exact .begin
  | deliver outcome => cases h
  | _ =>
      obtain rfl := Option.some.inj h
      constructor

/-- Whether an event is that a listener of a tree was told something. -/
def Event.isNotice : Event → Bool
  | .measured .. | .ready .. => true
  | _ => false

namespace Session

/-- The stage whose step is made in a moment, if it is the step of a layout on thread `i` that has
`n` frames below. -/
def stageAt? (s : Session) (i n : Nat) : Moment → Option Stage
  | .carry j =>
    match s.top? j with
    | some (.layout _ _ stage) => if j = i ∧ ((s.off j).work j).length = n then some stage else none
    | _ => none
  | _ => none

/-- The steps of layouts on thread `i` that have `n` frames below, in a run, each with the session
in which it is made. -/
def layoutSteps (i n : Nat) (s : Session) : List Moment → List (Session × Stage)
  | [] => []
  | m :: ms => ((s.stageAt? i n m).map (s, ·)).toList ++ match s.next? m with
    | some s' => s'.layoutSteps i n ms
    | none => []

/-- Steps that bring a layout to a stage. -/
inductive Path (l : Layout) : List (Session × Stage) → Stage → Prop
  | nil : Path l [] .enter
  | step {s : Session} {steps : List (Session × Stage)} {stage stage' : Stage}
      (h : Path l steps stage) (hn : stage.after? s.store l = some stage') :
      Path l (steps ++ [(s, stage)]) stage'

/-- A run from a session where a layout begins on thread `i`, with some frames below it, to one
where it is at a stage, the frames below being as before. -/
structure Course (s : Session) (i : Nat) (l : Layout) (sequel : Sequel) (below : List Frame)
    (ms : List Moment) (s' : Session) (stage : Stage) : Prop where
  begins : s.work i = .layout l sequel .enter :: below
  run : s.follow? ms = some s'
  reaches : s'.work i = .layout l sequel stage :: below
  lasts : ∀ ns t, ns <+: ms → s.follow? ns = some t → below.length < (t.work i).length

/-- What the callbacks report that are called in a moment. -/
def reported (s : Session) (m : Moment) : List Event :=
  match s.next? m with
  | some s' => s'.events.drop s.events.length
  | none => []

variable {o s s' t u : Session} {i j n : Nat} {f g : Frame} {l : Layout} {sequel : Sequel}
  {stage stage' : Stage} {m : Moment} {ms ns : List Moment} {below above fs ws : List Frame}
  {steps : List (Session × Stage)} {size : Size} {ready : Option ReadyListener}

/-! ## The steps of a layout -/

theorem layoutSteps_cons (h : s.next? m = some s') (ms : List Moment) :
    s.layoutSteps i n (m :: ms) =
      ((s.stageAt? i n m).map (s, ·)).toList ++ s'.layoutSteps i n ms := by
  rw [layoutSteps, h]

theorem stageAt?_of_layout (hf : s.top? j = some (.layout l sequel stage)) :
    s.stageAt? i n (.carry j) =
      if j = i ∧ ((s.off j).work j).length = n then some stage else none := by
  rw [stageAt?, hf]

/-- A callback comes on top of the work under way. -/
theorem work_callback (s : Session) (e : Event) (i : Nat) (script : Option Nat) :
    ∃ calls, ((s.report e).fire i script).work i = calls ++ s.work i := by
  obtain ⟨calls, -, hl⟩ := (s.report e).like_fire i script
  obtain ⟨fs, hfs⟩ := suffix_work_push (s.report e) i calls i
  exact ⟨fs, by rw [hl.work, ← hfs, (s.like_report e).work]⟩

/-- A layout goes on with its next stage, below the callbacks that were called, and is gone after
its last step. -/
theorem work_layout (hf : s.top? i = some (.layout l sequel stage))
    (hn : s.next? (.carry i) = some s') :
    (∃ calls stage', stage.after? s.store l = some stage' ∧
        s'.work i = calls ++ .layout l sequel stage' :: (s.off i).work i) ∨
      stage.after? s.store l = none ∧ s'.work i = (s.off i).work i := by
  obtain rfl := eq_of_next?_carry hf hn
  have hi := lt_off_of_top? hf
  have hstore : s.store = (s.off i).store := rfl
  rw [(like_dismissSince _ _).work, hstore]
  generalize s.off i = v at hi
  have hpush (stage' : Stage) : (v.push i [.layout l sequel stage']).work i =
      .layout l sequel stage' :: v.work i := by
    rw [work_push, if_pos ⟨rfl, hi⟩]
    rfl
  have hgo {w : Session} {stage' : Stage} (ha : stage.after? v.store l = some stage')
      (hw : ∃ calls, w.work i = calls ++ .layout l sequel stage' :: v.work i) :
      (∃ calls stage', stage.after? v.store l = some stage' ∧
        w.work i = calls ++ .layout l sequel stage' :: v.work i) ∨
          stage.after? v.store l = none ∧ w.work i = v.work i := by
    obtain ⟨calls, hw⟩ := hw
    exact .inl ⟨calls, stage', ha, hw⟩
  have hcall {w : Session} {stage' : Stage} (hw : w.work i = .layout l sequel stage' :: v.work i)
      (e : Event) (script : Option Nat) :
      ∃ calls, ((w.report e).fire i script).work i =
        calls ++ .layout l sequel stage' :: v.work i := by
    rw [← hw]
    exact w.work_callback e i script
  cases stage with
  | enter =>
      refine hgo rfl ⟨[], ?_⟩
      show (v.stepEnter i l sequel).work i = _
      unfold stepEnter
      dsimp only
      generalize v.store.enterLayout l.tree = entered
      rcases entered with ⟨σ, failure | _ | gate⟩ <;>
        exact (work_push _ i _ i).trans (if_pos ⟨rfl, hi⟩)
  | gate gate => exact hgo rfl ⟨[], hpush _⟩
  | measure =>
      refine hgo rfl ?_
      show ∃ calls, (v.stepMeasure i l sequel).work i = _
      unfold stepMeasure
      dsimp only
      split
      · split
        · exact hcall (hpush _) _ _
        · exact ⟨[], hpush _⟩
      · exact ⟨[], hpush _⟩
  | settle size => exact hgo rfl ⟨[], hpush _⟩
  | notifyMeasured size ready =>
      refine hgo rfl ?_
      show ∃ calls, (v.stepNotifyMeasured i l sequel size ready).work i = _
      unfold stepNotifyMeasured
      dsimp only
      split
      · exact ⟨[], hpush _⟩
      · split
        · split
          · refine hcall ?_ _ _
            split <;> exact hpush _
          · exact hcall (hpush _) _ _
        · exact hcall (hpush _) _ _
  | notifyReady size ready =>
      refine hgo rfl ?_
      show ∃ calls, (v.stepNotifyReady i l sequel size ready).work i = _
      unfold stepNotifyReady
      dsimp only
      split
      · exact ⟨[], hpush _⟩
      · exact hcall (hpush _) _ _
  | deliver outcome =>
      refine .inr ⟨rfl, ?_⟩
      show (v.stepDeliver i l sequel outcome).work i = _
      unfold stepDeliver
      split <;> exact (like_answer _ _ _).work i

/-! ## The path of a course -/

/-- A step leaves a layout that it finds on the stack there, with whatever the step puts on top of
it, or it is the step of the layout itself, which goes on with its next stage. -/
theorem Path.next? (hp : Path l steps stage)
    (hwork : s.work i = above ++ .layout l sequel stage :: below) (hn : s.next? m = some s')
    (hlt : below.length < (s'.work i).length) :
    ∃ above' stage', s'.work i = above' ++ .layout l sequel stage' :: below ∧
      Path l (steps ++ ((s.stageAt? i below.length m).map (s, ·)).toList) stage' := by
  rcases kept_or_carried hwork hn hlt with ⟨⟨above', hwork'⟩, hlen⟩ | ⟨rfl, hf, hbelow, -⟩
  · have hnone : s.stageAt? i below.length m = none := by
      unfold stageAt?
      split
      · split
        · refine if_neg ?_
          rintro ⟨rfl, heq⟩
          exact hlen rfl heq
        · rfl
      · rfl
    rw [hnone, Option.map_none, Option.toList_none, List.append_nil]
    exact ⟨above', stage, hwork', hp⟩
  · rw [stageAt?_of_layout hf, if_pos ⟨rfl, congrArg List.length hbelow⟩]
    rcases work_layout hf hn with ⟨calls, stage', ha, hwork'⟩ | ⟨-, hwork'⟩
    · exact ⟨calls, stage', by rw [hwork', hbelow], hp.step ha⟩
    · rw [hwork', hbelow] at hlt
      exact absurd hlt (Nat.lt_irrefl _)

theorem Path.follow? (hp : Path l steps stage)
    (hwork : s.work i = above ++ .layout l sequel stage :: below) (hrun : s.follow? ms = some s')
    (hlasts : ∀ ns t, ns <+: ms → s.follow? ns = some t → below.length < (t.work i).length) :
    ∃ above' stage', s'.work i = above' ++ .layout l sequel stage' :: below ∧
      Path l (steps ++ s.layoutSteps i below.length ms) stage' := by
  induction ms generalizing s steps stage above with
  | nil =>
      obtain rfl := Option.some.inj hrun
      exact ⟨above, stage, hwork, by rwa [layoutSteps, List.append_nil]⟩
  | cons m ms ih =>
      obtain ⟨t, ht, hrun⟩ := follow?_cons_eq_some.1 hrun
      obtain ⟨above', stage', hwork', hp'⟩ := hp.next? hwork ht
        (hlasts [m] t (by simp) (follow?_singleton ht))
      rw [layoutSteps_cons ht, ← List.append_assoc]
      refine ih hp' hwork' hrun fun ns u hns hu => ?_
      exact hlasts (m :: ns) u (List.cons_prefix_cons.2 ⟨rfl, hns⟩)
        (by rw [follow?_cons, ht]; exact hu)

/-- Up to any moment of its course a layout is on the stack, at the stage to which the steps it made
by then brought it. -/
theorem Course.follow? (hc : Course s i l sequel below ms s' stage) (hrun : s.follow? ns = some t)
    (hns : ∀ ks, ks <+: ns → ks <+: ms) :
    ∃ above stage', t.work i = above ++ .layout l sequel stage' :: below ∧
      Path l (s.layoutSteps i below.length ns) stage' := by
  have hbegins : s.work i = [] ++ .layout l sequel .enter :: below := hc.begins
  exact Path.nil.follow? hbegins hrun fun ks u hks hu => hc.lasts ks u (hns ks hks) hu

/-- The steps that a layout made in its course brought it to the stage it is at. -/
theorem Course.path (hc : Course s i l sequel below ms s' stage) :
    Path l (s.layoutSteps i below.length ms) stage := by
  obtain ⟨above, stage', hwork, hp⟩ := hc.follow? hc.run fun _ h => h
  rw [hc.reaches] at hwork
  cases above with
  | nil =>
      obtain ⟨hframe, -⟩ := List.cons.inj hwork
      cases hframe
      exact hp
  | cons a above =>
      have hlen := congrArg List.length hwork
      simp only [List.length_cons, List.length_append] at hlen
      omega

/-! ## Every layout has a course -/

/-- A frame that is not among the new ones was there before. -/
theorem exists_of_append_eq (h : fs ++ ws = above ++ g :: below) (hg : g ∉ fs) :
    ∃ above', ws = above' ++ g :: below := by
  rcases List.append_eq_append_iff.1 h with ⟨as, -, hws⟩ | ⟨cs, rfl, hcs⟩
  · exact ⟨as, hws⟩
  · cases cs with
    | nil => exact ⟨[], hcs.symm⟩
    | cons c cs =>
        obtain ⟨rfl, -⟩ := List.cons.inj hcs
        exact absurd List.mem_append_cons_self hg

theorem eq_enter_of_mem_launchFrames {σ : Store} {r : Request}
    (hg : .layout l sequel stage ∈ launchFrames σ r) :
    ∃ rest, launchFrames σ r = .layout l sequel .enter :: rest ∧ stage = .enter ∧
      ∀ g ∈ rest, g.isLayout = false := by
  unfold launchFrames at hg ⊢
  split at hg
  · next hb =>
      rw [if_pos hb]
      unfold handOverFrames at hg ⊢
      split at hg
      · cases List.mem_singleton.1 hg
      · rcases List.mem_cons.1 hg with heq | hg
        · cases heq
          exact ⟨_, rfl, rfl, by simp [Frame.isLayout]⟩
        · cases List.mem_singleton.1 hg
  · next hb =>
      rw [if_neg hb]
      cases List.mem_singleton.1 hg
      exact ⟨[], rfl, rfl, fun g hg => nomatch hg⟩

/-- A layout is the next stage of one that was under way, or begins in front of what comes with
it. -/
theorem layout_of_ensues (he : Ensues s f fs) (hg : .layout l sequel stage ∈ fs) :
    (∃ stage', f = .layout l sequel stage' ∧ fs = [.layout l sequel stage]) ∨
      f.callsBack = false ∧ ∃ rest, fs = .layout l sequel .enter :: rest ∧ stage = .enter ∧
        ∀ g ∈ rest, g.isLayout = false := by
  have hone (l' : Layout) (sequel' : Sequel) {rest : List Frame}
      (hrest : ∀ g ∈ rest, g.isLayout = false)
      (hg : .layout l sequel stage ∈ Frame.layout l' sequel' .enter :: rest) :
      ∃ rest', Frame.layout l' sequel' .enter :: rest = .layout l sequel .enter :: rest' ∧
        stage = .enter ∧ ∀ g ∈ rest', g.isLayout = false := by
    rcases List.mem_cons.1 hg with heq | hg
    · cases heq
      exact ⟨rest, rfl, rfl, hrest⟩
    · exact absurd (hrest _ hg) (by simp [Frame.isLayout])
  cases he with
  | nothing => cases hg
  | request c hc => cases List.mem_singleton.1 hg
  | release hn => cases List.mem_singleton.1 hg
  | reply c hl => exact .inr ⟨rfl, hone _ _ (fun g hg => nomatch hg) hg⟩
  | background c hl => exact .inr ⟨rfl, hone _ _ (fun g hg => nomatch hg) hg⟩
  | runWaiting c q count => cases List.mem_singleton.1 hg
  | script step rest => simp at hg
  | opened call =>
      refine .inr ⟨rfl, ?_⟩
      unfold openingFrames at hg ⊢
      split at hg
      · exact eq_enter_of_mem_launchFrames hg
      · simp at hg
      · simp at hg
      · cases hg
  | claimed call item component handle listener =>
      refine .inr ⟨rfl, ?_⟩
      unfold claimFrames at hg ⊢
      split at hg
      · exact eq_enter_of_mem_launchFrames hg
      · exact eq_enter_of_mem_launchFrames hg
      · cases hg
  | @layout stage₀ stage' l' sequel' hnext =>
      cases List.mem_singleton.1 hg
      exact .inl ⟨stage₀, rfl, rfl⟩
  | dequeued remaining count hq hl =>
      exact .inr ⟨rfl, hone _ _ (by simp [Frame.isLayout]) hg⟩
  | served hq hl => exact .inr ⟨rfl, hone _ _ (by simp [Frame.isLayout]) hg⟩

/-- A layout that is somewhere on a stack after a step was there before, at the same place and maybe
at an earlier stage, or begins on top of the stack. -/
theorem layout_of_next? (hn : s.next? m = some s')
    (hwork : s'.work i = above ++ .layout l sequel stage :: below) :
    (∃ above' stage', s.work i = above' ++ .layout l sequel stage' :: below) ∨
      above = [] ∧ stage = .enter := by
  cases happens_of_next? hn with
  | @give j c hj =>
      rw [work_push] at hwork
      split at hwork
      · obtain ⟨above', h⟩ := exists_of_append_eq hwork (by simp)
        exact .inl ⟨above', stage, h⟩
      · exact .inl ⟨above, stage, hwork⟩
  | look h => exact .inl ⟨above, stage, ((s.like_view? h).work i).symm.trans hwork⟩
  | @carry j f _ hf ht =>
      by_cases hj : i = j
      · subst hj
        have hbelow {above' : List Frame}
            (h : (s.off i).work i = above' ++ .layout l sequel stage :: below) :
            ∃ above' stage', s.work i = above' ++ .layout l sequel stage' :: below :=
          ⟨_, stage, by rw [work_eq_of_top? hf, h, ← List.append_assoc]⟩
        rcases ht.goesOn with ⟨calls, fs, hcalls, hfs, hgo⟩ | hpanic
        · rw [hgo] at hwork
          obtain ⟨above', habove⟩ := exists_of_append_eq hwork fun hmem => by
            obtain ⟨-, script, heq⟩ := hcalls _ hmem
            cases heq
          by_cases hg : .layout l sequel stage ∈ fs
          · rcases layout_of_ensues hfs hg with ⟨stage', rfl, rfl⟩ | ⟨hcall, rest, rfl, rfl, hrest⟩
            · cases above' with
              | nil =>
                  obtain ⟨-, hoff⟩ := List.cons.inj habove
                  refine .inl ⟨[], stage', ?_⟩
                  rw [work_of_top? hf rfl]
                  exact congrArg _ hoff
              | cons a above' => exact .inl (hbelow (List.cons.inj habove).2)
            · obtain rfl := calls_eq_nil hcall hcalls
              cases above with
              | nil => exact .inr ⟨rfl, rfl⟩
              | cons a above =>
                  obtain ⟨-, hlater⟩ := List.cons.inj hwork
                  obtain ⟨above₂, h⟩ := exists_of_append_eq hlater fun hmem =>
                    absurd (hrest _ hmem) (by simp [Frame.isLayout])
                  exact .inl (hbelow h)
          · obtain ⟨above₂, h⟩ := exists_of_append_eq habove hg
            exact .inl (hbelow h)
        · obtain ⟨fs, hfs⟩ := hpanic
          rw [hwork] at hfs
          rw [← List.append_assoc] at hfs
          exact .inl (hbelow hfs.symm)
      · rw [← work_off s hj]
        rcases ht.others i hj with hsame | ⟨-, c, hnew⟩
        · exact .inl ⟨above, stage, hsame.symm.trans hwork⟩
        · have hmem : .layout l sequel stage ∈ s'.work i := by
            rw [hwork]
            exact List.mem_append_cons_self
          rw [hnew] at hmem
          simp at hmem

/-- A layout under way that was not there before the run began in it, and has been on its thread
since. -/
theorem exists_of_layout (hrun : o.follow? ms = some s)
    (hnone : ∀ above stage, o.work i ≠ above ++ .layout l sequel stage :: below)
    (hwork : s.work i = above ++ .layout l sequel stage :: below) :
    ∃ ks ns u, ms = ks ++ ns ∧ o.follow? ks = some u ∧
      u.work i = .layout l sequel .enter :: below ∧
      ∀ ks' t, ks' <+: ns → u.follow? ks' = some t → below.length < (t.work i).length := by
  refine follow?_history_induction (P := fun ms s => ∀ above stage,
    s.work i = above ++ .layout l sequel stage :: below →
      ∃ ks ns u, ms = ks ++ ns ∧ o.follow? ks = some u ∧
        u.work i = .layout l sequel .enter :: below ∧
        ∀ ks' t, ks' <+: ns → u.follow? ks' = some t → below.length < (t.work i).length)
    (fun above stage hwork => absurd hwork (hnone above stage)) ?_ hrun above stage hwork
  intro ms s m s' hs hn ih above stage hwork
  rcases layout_of_next? hn hwork with ⟨above', stage', hbefore⟩ | ⟨rfl, rfl⟩
  · obtain ⟨ks, ns, u, rfl, hu, hbegins, hlasts⟩ := ih above' stage' hbefore
    refine ⟨ks, ns ++ [m], u, List.append_assoc .., hu, hbegins, fun ks' t hks' ht => ?_⟩
    rcases List.prefix_concat_iff.1 hks' with rfl | hks'
    · rw [follow?_append, hu, Option.bind_some] at hs
      rw [follow?_concat hs hn] at ht
      obtain rfl := Option.some.inj ht
      rw [hwork]
      simp only [List.length_append, List.length_cons]
      omega
    · exact hlasts ks' t hks' ht
  · refine ⟨ms ++ [m], [], s', (List.append_nil _).symm, follow?_concat hs hn, hwork,
      fun ks' t hks' ht => ?_⟩
    obtain rfl := List.prefix_nil.1 hks'
    obtain rfl := Option.some.inj ht
    rw [hwork]
    exact Nat.lt_succ_self _

theorem exists_course (hrun : o.follow? ms = some s)
    (hnone : ∀ above stage, o.work i ≠ above ++ .layout l sequel stage :: below)
    (hwork : s.work i = .layout l sequel stage :: below) :
    ∃ ks ns u, ms = ks ++ ns ∧ o.follow? ks = some u ∧ Course u i l sequel below ns s stage := by
  have hfound : s.work i = [] ++ .layout l sequel stage :: below := hwork
  obtain ⟨ks, ns, u, rfl, hu, hbegins, hlasts⟩ := exists_of_layout hrun hnone hfound
  rw [follow?_append, hu, Option.bind_some] at hrun
  exact ⟨ks, ns, u, rfl, hu, hbegins, hrun, hwork, hlasts⟩

/-- In every run, a layout that is carried on next has a course from a session of the run. -/
theorem exists_course_of_run {p : Program} (hrun : (ofProgram p).follow? ms = some s)
    (hwork : s.work i = .layout l sequel stage :: below) :
    ∃ ks ns u, ms = ks ++ ns ∧ (ofProgram p).follow? ks = some u ∧
      Course u i l sequel below ns s stage := by
  refine exists_course hrun (fun above stage h => ?_) hwork
  rw [work_ofProgram] at h
  simp at h

theorem exists_of_mem_layoutSteps (ht : (t, stage) ∈ s.layoutSteps i n ms) :
    ∃ ks ns, ms = ks ++ .carry i :: ns ∧ s.follow? ks = some t ∧
      (∃ l sequel, t.top? i = some (.layout l sequel stage)) ∧ ((t.off i).work i).length = n := by
  induction ms generalizing s with
  | nil => cases ht
  | cons m ms ih =>
      rw [layoutSteps, List.mem_append, Option.mem_toList, Option.map_eq_some_iff] at ht
      rcases ht with ⟨stage', hstage, heq⟩ | ht
      · cases heq
        cases m with
        | carry j =>
            rw [stageAt?] at hstage
            split at hstage
            · next l sequel stage' hf =>
                split at hstage
                · next h =>
                    obtain ⟨rfl, hlen⟩ := h
                    obtain rfl := Option.some.inj hstage
                    exact ⟨[], ms, rfl, rfl, ⟨l, sequel, hf⟩, hlen⟩
                · cases hstage
            · cases hstage
        | give j c => cases hstage
        | look h => cases hstage
      · split at ht
        · next s' hn =>
            obtain ⟨ks, ns, rfl, hks, hrest⟩ := ih ht
            exact ⟨m :: ks, ns, rfl, follow?_cons_eq_some.2 ⟨s', hn, hks⟩, hrest⟩
        · cases ht

/-- The steps of a layout are made in moments of its course. -/
theorem Course.exists_of_mem (hc : Course s i l sequel below ms s' stage)
    (ht : (t, stage') ∈ s.layoutSteps i below.length ms) :
    ∃ ks ns, ms = ks ++ .carry i :: ns ∧ s.follow? ks = some t ∧
      t.top? i = some (.layout l sequel stage') ∧ (t.off i).work i = below := by
  obtain ⟨ks, ns, rfl, hks, ⟨l', sequel', hf⟩, hlen⟩ := exists_of_mem_layoutSteps ht
  obtain ⟨above, stage₁, hwork, -⟩ := hc.follow? hks
    fun ks' hks' => hks'.trans (List.prefix_append _ _)
  rw [work_of_top? hf rfl] at hwork
  cases above with
  | nil =>
      obtain ⟨hframe, hrest⟩ := List.cons.inj hwork
      cases hframe
      exact ⟨ks, ns, rfl, hks, hf, hrest⟩
  | cons a above =>
      have hlong := congrArg List.length hwork
      simp only [List.length_cons, List.length_append] at hlong
      omega

/-! ## What listeners are told -/

theorem reported_eq {es : List Event} (hn : s.next? m = some s') (he : s'.events = s.events ++ es) :
    s.reported m = es := by
  rw [reported, hn]
  dsimp only
  rw [he, List.drop_left]

theorem events_callback (s : Session) (e : Event) (i : Nat) (script : Option Nat) :
    ((s.report e).fire i script).events = s.events ++ [e] := events_fire _ _ _

/-- What listeners are told in the step of a layout: the measure listener of the tree in one step,
the listener for new layouts in another, and none in the rest. -/
theorem events_of_layout (hf : s.top? i = some (.layout l sequel stage))
    (hn : s.next? (.carry i) = some s') :
    s'.events = s.events ++ s.reported (.carry i) ∧
      (s.reported (.carry i)).filter Event.isNotice = match stage with
        | .notifyMeasured size _ =>
          (((s.store.tree? l.tree).bind (·.config.listener)).map fun listener =>
            .measured listener.factory.name size (if listener.factory.writesHeight then
              listener.handle.map (s.resolve? · |>.isSome) else none)).toList
        | .notifyReady _ ready =>
          (ready.map fun listener =>
            .ready listener.name ((s.store.tree? l.tree).any (·.mounted))).toList
        | _ => [] := by
  have htold {es : List Event} (he : s'.events = s.events ++ es) :
      s'.events = s.events ++ s.reported (.carry i) ∧ s.reported (.carry i) = es :=
    ⟨by rw [reported_eq hn he, he], reported_eq hn he⟩
  have hnone (he : s'.events = s.events) :
      s'.events = s.events ++ s.reported (.carry i) ∧
        (s.reported (.carry i)).filter Event.isNotice = [] := by
    obtain ⟨h, heq⟩ := htold (he.trans (List.append_nil _).symm)
    exact ⟨h, by rw [heq]; rfl⟩
  have hevents : s'.events = ((s.off i).stepLayout i l sequel stage).events := by
    rw [eq_of_next?_carry hf hn, events_dismissSince]
    rfl
  cases stage with
  | enter =>
      refine hnone (hevents.trans ?_)
      unfold stepLayout stepEnter
      dsimp only
      generalize (s.off i).store.enterLayout l.tree = entered
      rcases entered with ⟨σ, failure | _ | gate⟩ <;> rfl
  | gate gate => exact hnone hevents
  | measure =>
      simp only [stepLayout, stepMeasure] at hevents
      split at hevents
      · split at hevents
        · obtain ⟨h, heq⟩ := htold (hevents.trans (events_callback _ _ _ _))
          exact ⟨h, by rw [heq]; rfl⟩
        · exact hnone hevents
      · exact hnone hevents
  | settle size => exact hnone hevents
  | notifyMeasured size ready =>
      have hres := resolve?_push hf (g := .layout l sequel (.notifyReady size ready))
        (by cases sequel <;> rfl)
      simp only [stepLayout, stepNotifyMeasured, store_push, hres] at hevents
      have hstore : (s.off i).store = s.store := rfl
      rw [hstore] at hevents
      generalize (s.store.tree? l.tree).bind (·.config.listener) = listener at hevents ⊢
      rcases listener with _ | ⟨factory, _ | w⟩
      · exact hnone hevents
      · obtain ⟨h, heq⟩ := htold (hevents.trans (events_callback _ _ _ _))
        exact ⟨h, by rw [heq]; cases hw : factory.writesHeight <;> simp [Event.isNotice, hw]⟩
      · dsimp only at hevents
        cases hw : factory.writesHeight with
        | false =>
            rw [hw] at hevents
            obtain ⟨h, heq⟩ := htold (hevents.trans (events_callback _ _ _ _))
            exact ⟨h, by rw [heq]; simp [Event.isNotice, hw]⟩
        | true =>
            rw [hw, if_pos rfl, events_callback] at hevents
            have hwritten : s'.events =
                s.events ++ [.measured factory.name size (some (s.resolve? w).isSome)] := by
              rw [hevents]
              split <;> rfl
            obtain ⟨h, heq⟩ := htold hwritten
            exact ⟨h, by rw [heq]; simp [Event.isNotice, hw]⟩
  | notifyReady size ready =>
      simp only [stepLayout, stepNotifyReady] at hevents
      cases ready with
      | none => exact hnone hevents
      | some listener =>
          obtain ⟨h, heq⟩ := htold (hevents.trans (events_callback _ _ _ _))
          exact ⟨h, by rw [heq]; rfl⟩
  | deliver outcome =>
      refine hnone (hevents.trans ?_)
      unfold stepLayout stepDeliver
      dsimp only
      split <;> rfl

end Session

end Recycler

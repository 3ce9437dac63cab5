import Recycler.Proofs.Session.Rest

/-!
# Who refers to a holder

What a session refers to by handles and by work under way (`Refers`), and the weak handles that are
about (`Bears`). A weak handle resolves exactly if it is `Live`: its holder was not released since,
and somebody refers to it. Once a holder is referred to by nobody it is so until an item acquires
it (`refers_of_turn`), and a weak handle that is not live never comes back to life.
-/

namespace Recycler

/-- The weak handle that a frame was made with. -/
def Frame.handle? : Frame → Option WeakHandle
  | .factory _ w => some w
  | .claimTree _ _ _ w _ => some w
  | _ => none

namespace Session

variable {s s' : Session} {i j h : Nat} {f g : Frame} {w : WeakHandle} {fs gs : List Frame}

/-- Somebody refers to a holder. -/
def Refers (s : Session) (h : Nat) : Prop :=
  s.Holds h ∨ ∃ j, ∃ f ∈ s.work j, f.holder? = some h

/-- A weak handle is in a register, or with the listener of a tree or with work under way. -/
def Bears (s : Session) (w : WeakHandle) : Prop :=
  s.Keeps w ∨ s.store.Listens w ∨ ∃ j, ∃ f ∈ s.work j, f.handle? = some w

/-- A weak handle that resolves. -/
def Live (s : Session) (w : WeakHandle) : Prop :=
  s.Refers w.holder ∧ s.store.isOfGeneration w

theorem refers_iff : s.Refers h ↔ ¬ s.Unreferred h := by
  constructor
  · rintro (hh | ⟨j, f, hf, hh⟩) hu
    · exact hu.unheld hh
    · exact hu.workless j f hf hh
  · intro hu
    by_cases hh : s.Holds h
    · exact .inl hh
    · refine .inr (Classical.not_not.1 fun hn => hu ⟨hh, fun j f hf hfh => ?_⟩)
      exact hn ⟨j, f, hf, hfh⟩

theorem Like.refers (hl : Like s s') (hr : s'.Refers h) : s.Refers h := by
  rcases hr with ⟨name, hr⟩ | ⟨j, f, hf, hh⟩
  · exact .inl ⟨name, hl.handles ▸ hr⟩
  · exact .inr ⟨j, f, hl.work j ▸ hf, hh⟩

theorem Like.bears (hl : Like s s') (hw : s'.Bears w) : s.Bears w := by
  rcases hw with ⟨name, hw⟩ | hw | ⟨j, f, hf, hw⟩
  · exact .inl ⟨name, hl.weaks ▸ hw⟩
  · exact .inr (.inl (hl.store ▸ hw))
  · exact .inr (.inr ⟨j, f, hl.work j ▸ hf, hw⟩)

theorem mem_work_of_mem_stack {t : Thread} (ht : s.threads[j]? = some t) (hf : f ∈ t.stack)
    (hs : f.isServe = false) : f ∈ s.work j := by
  rw [work, ht]
  exact List.mem_filter.2 ⟨hf, by rw [hs]; rfl⟩

/-- The references that are counted are those that there are. -/
theorem references_pos_iff : 0 < s.references h ↔ s.Refers h := by
  rw [refers_iff]
  constructor
  · intro hpos hu
    rw [references] at hpos
    rcases Nat.add_pos_iff_pos_or_pos.1 hpos with hreg | hpos
    · obtain ⟨e, he, heh⟩ := List.countP_pos_iff.1 hreg
      exact hu.unheld ⟨e.1, of_decide_eq_true heh ▸ Keyed.get?_of_mem he⟩
    · obtain ⟨t, ht, hpos⟩ := exists_pos_of_sum_pos hpos
      obtain ⟨f, hf, hfh⟩ := List.countP_pos_iff.1 hpos
      obtain ⟨j, hj⟩ := List.getElem?_of_mem ht
      have hfh := of_decide_eq_true hfh
      exact hu.workless j f (mem_work_of_mem_stack hj hf (f.isServe_of_holder? hfh)) hfh
  · intro hu
    exact Classical.not_not.1 fun h0 => hu (unreferred_of_references h0)

/-! ## Work with a weak handle -/

/-- A frame with a weak handle is that of a request, or comes before it: below the factory is the
request that it is called for. -/
def Escorted : List Frame → Prop
  | [] => True
  | f :: fs => (∀ w, f.handle? = some w → ∃ call item component l,
      Frame.claimTree call item component w l ∈ f :: fs) ∧ Escorted fs

theorem Escorted.mem (he : Escorted fs) (hf : f ∈ fs) (hw : f.handle? = some w) :
    ∃ call item component l, Frame.claimTree call item component w l ∈ fs := by
  induction fs with
  | nil => cases hf
  | cons g fs ih =>
      obtain ⟨hg, he⟩ := he
      rcases List.mem_cons.1 hf with rfl | hf
      · exact hg w hw
      · obtain ⟨call, item, component, l, hmem⟩ := ih he hf
        exact ⟨call, item, component, l, List.mem_cons_of_mem _ hmem⟩

theorem Escorted.append (hfs : Escorted fs) (hgs : Escorted gs) : Escorted (fs ++ gs) := by
  induction fs with
  | nil => exact hgs
  | cons f fs ih =>
      obtain ⟨hf, hfs⟩ := hfs
      refine ⟨fun w hw => ?_, ih hfs⟩
      obtain ⟨call, item, component, l, hmem⟩ := hf w hw
      exact ⟨call, item, component, l, List.mem_append_left gs hmem⟩

theorem escorted_of_none (hfs : ∀ f ∈ fs, f.handle? = none) : Escorted fs := by
  induction fs with
  | nil => trivial
  | cons f fs ih =>
      refine ⟨fun w hw => ?_, ih fun g hg => hfs g (List.mem_cons_of_mem _ hg)⟩
      rw [hfs f List.mem_cons_self] at hw
      cases hw

theorem Escorted.suffix (hfs : Escorted fs) (hs : gs <:+ fs) : Escorted gs := by
  obtain ⟨above, rfl⟩ := hs
  induction above with
  | nil => exact hfs
  | cons f above ih => exact ih hfs.2

theorem handle?_of_mem_launchFrames {u : Store} {r : Request} (hg : g ∈ launchFrames u r) :
    g.handle? = none := by
  rcases of_mem_launchFrames hg with rfl | rfl | rfl <;> rfl

theorem escorted_of_ensues (he : Ensues s f fs) : Escorted fs := by
  cases he with
  | opened call =>
      unfold openingFrames
      split
      · exact escorted_of_none fun g hg => handle?_of_mem_launchFrames hg
      · refine ⟨fun w hw => ?_, trivial⟩
        cases hw
        exact ⟨_, _, _, _, List.mem_cons_self⟩
      · refine ⟨fun w hw => ?_, fun w hw => ?_, trivial⟩
        · cases hw
          exact ⟨_, _, _, _, List.mem_cons_of_mem _ List.mem_cons_self⟩
        · cases hw
          exact ⟨_, _, _, _, List.mem_cons_self⟩
      · trivial
  | claimed call item component handle listener =>
      unfold claimFrames
      split
      · exact escorted_of_none fun g hg => handle?_of_mem_launchFrames hg
      · exact escorted_of_none fun g hg => handle?_of_mem_launchFrames hg
      · trivial
  | nothing => trivial
  | _ =>
      refine escorted_of_none fun g hg => ?_
      simp only [List.mem_cons, List.not_mem_nil, or_false] at hg
      rcases hg with rfl | rfl | rfl <;> rfl

/-- What the proofs about references need to know of a session. -/
structure Regular (s : Session) : Prop where
  sound : s.Sound
  rested : s.Rested
  escorted : ∀ j, Escorted (s.work j)

theorem Escorted.turn (he : ∀ j, Escorted (s.work j)) (ht : Turn s i f s') (j : Nat) :
    Escorted (s'.work j) := by
  by_cases hj : j = i
  · subst hj
    rcases ht.goesOn with ⟨calls, fs, hcalls, hfs, hwork⟩ | hpanic
    · rw [hwork]
      refine (escorted_of_none fun g hg => ?_).append ((escorted_of_ensues hfs).append (he j))
      obtain ⟨-, steps, rfl⟩ := hcalls g hg
      rfl
    · exact (he j).suffix hpanic
  · rcases ht.others j hj with hwork | ⟨-, c, hwork⟩
    · exact hwork ▸ he j
    · rw [hwork]
      refine escorted_of_none fun g hg => ?_
      simp only [List.mem_cons, List.not_mem_nil, or_false] at hg
      rcases hg with rfl | rfl <;> rfl

theorem Regular.next? {m : Moment} (ho : s.Regular) (hm : s.interrupts m = false)
    (h : s.next? m = some s') : s'.Regular := by
  refine ⟨ho.sound.next? h, ho.rested.next? ho.sound hm h, fun j => ?_⟩
  cases happens_of_next? h with
  | give c hi =>
      rw [work_push]
      split
      · refine (escorted_of_none fun g hg => ?_).append (ho.escorted j)
        simp only [List.mem_filter, List.mem_cons, List.not_mem_nil, or_false] at hg
        rcases hg.1 with rfl | rfl <;> rfl
      · exact ho.escorted j
  | carry hf ht =>
      exact Escorted.turn (fun j => (ho.escorted j).suffix (work_off_suffix hf j)) ht j
  | look k => exact ((s.like_view? k).work j) ▸ ho.escorted j

theorem Orderly.regular (ho : s.Orderly) : s.Regular := by
  obtain ⟨p, ms, hu, hms⟩ := ho
  have hp : (ofProgram p).Regular := by
    refine ⟨sound_ofProgram p, rested_ofProgram p, fun j => ?_⟩
    rw [work_ofProgram]
    trivial
  exact unbroken_induction (fun _ _ _ hm h hs => hs.next? hm h) hu hms hp

theorem Regular.like (ho : s.Regular) (hl : Like s s') : s'.Regular :=
  ⟨ho.sound.of_work hl.store hl.handles hl.weaks fun j _ hf => .inl (hl.work j ▸ hf),
    ho.rested.of_work hl.store hl.handles hl.weaks fun j _ hf => .inl (hl.work j ▸ hf),
    fun j => hl.work j ▸ ho.escorted j⟩

/-! ## Weak handles that are about -/

/-- The holder of a weak handle that work under way was made with is referred to. -/
theorem Regular.refers_of_handle? (ho : s.Regular) (hf : f ∈ s.work j) (hw : f.handle? = some w) :
    s.Refers w.holder := by
  obtain ⟨call, item, component, l, hmem⟩ := (ho.escorted j).mem hf hw
  obtain ⟨hcall, -⟩ := ho.sound.frames j _ hmem
  exact .inr ⟨j, _, hmem, congrArg some hcall.symm⟩

theorem Regular.lt_of_refers (ho : s.Regular) (hr : s.Refers h) : h < s.store.holders.length := by
  rcases hr with hh | ⟨j, f, hf, hh⟩
  · exact ho.sound.handles h hh
  · exact Frame.Sound.lt (ho.sound.frames j f hf) hh

theorem Regular.issued (ho : s.Regular) (hw : s.Bears w) : s.store.Issued w := by
  rcases hw with hw | hw | ⟨j, f, hf, hw⟩
  · exact ho.sound.weaks w hw
  · exact ho.sound.listeners w hw
  · obtain ⟨call, item, component, l, hmem⟩ := (ho.escorted j).mem hf hw
    exact (ho.sound.frames j _ hmem).2.1

theorem Regular.not_refers_of_idles (ho : s.Regular) {p : Nat} (hi : s.store.Idles p h) :
    ¬ s.Refers h := fun hr => refers_iff.1 hr (ho.rested.idle p h hi).toUnreferred

/-- The weak handles of an idle holder are stale. -/
theorem Regular.stale_of_idles (ho : s.Regular) (hw : s.Bears w) {p : Nat}
    (hi : s.store.Idles p w.holder) : s.store.Stale w := by
  rcases hw with hw | hw | ⟨j, f, hf, hw⟩
  · exact (ho.rested.idle p _ hi).cut w (.inl hw) rfl
  · exact (ho.rested.idle p _ hi).cut w (.inr hw) rfl
  · exact absurd (ho.refers_of_handle? hf hw) (ho.not_refers_of_idles hi)

theorem idles_of_isIdle {u : Store} (hi : u.isIdle h) : ∃ p, u.Idles p h := by
  obtain ⟨entry, hentry, hany⟩ := List.any_eq_true.1 hi
  cases entry with
  | none => cases hany
  | some pool =>
      obtain ⟨p, hp⟩ := List.getElem?_of_mem hentry
      refine ⟨p, pool, ?_, List.contains_iff_mem.1 hany⟩
      rw [Store.pool?, hp]
      rfl

/-- A weak handle resolves if it is live. -/
theorem resolve?_eq_some_iff (hstale : ∀ p, s.store.Idles p w.holder → s.store.Stale w) :
    s.resolve? w = some h ↔ w.holder = h ∧ s.Live w := by
  unfold resolve? isAlive Live
  rw [← references_pos_iff]
  constructor
  · intro hw
    split at hw
    · next hres =>
        simp only [Bool.and_eq_true, Bool.or_eq_true, decide_eq_true_eq] at hres
        obtain ⟨halive, hgen⟩ := hres
        refine ⟨Option.some.inj hw, ?_, hgen⟩
        rcases halive with hpos | hidle
        · exact hpos
        · obtain ⟨p, hp⟩ := idles_of_isIdle hidle
          rw [(hstale p hp).isOfGeneration] at hgen
          cases hgen
    · cases hw
  · rintro ⟨rfl, hpos, hgen⟩
    rw [hgen, decide_eq_true hpos]
    rfl

/-! ## What a step refers to

The step is one by which thread `i` is carried on by the frame `f`. -/

theorem refers_of_off (hf : s.top? i = some f) (hr : (s.off i).Refers h) : s.Refers h := by
  rcases hr with hr | ⟨j, g, hg, hh⟩
  · exact .inl hr
  · exact .inr ⟨j, g, (work_off_suffix hf j).subset hg, hh⟩

theorem refers_of_holder? (hf : s.top? i = some f) (hh : f.holder? = some h) : s.Refers h :=
  .inr ⟨i, f, mem_work_of_top? hf (f.isServe_of_holder? hh), hh⟩

/-- A holder that nobody referred to is referred to only if an item acquires it. -/
theorem Regular.refers_of_turn (ho : s.Regular) (hf : s.top? i = some f)
    (ht : Turn (s.off i) i f s') (hr : s'.Refers h) : s.Refers h ∨ ∃ p item policy factory,
      .acquire p item policy factory ∈ (s.off i).frameActs i f ∧
        h = (s.store.takeHolder p).2.1 := by
  rcases hr with hr | ⟨j, g, hg, hh⟩
  · rcases ht.handles h hr with hr | hacq | ⟨w, hw, hres⟩
    · exact .inl (.inl hr)
    · exact .inr hacq
    · have hstale : ∀ p, (s.off i).store.Idles p w.holder → (s.off i).store.Stale w :=
        fun p hi => ho.stale_of_idles (.inl hw) hi
      obtain ⟨rfl, hlive⟩ := (resolve?_eq_some_iff hstale).1 hres
      exact .inl (refers_of_off hf hlive.1)
  · left
    rcases ht.mem_work hg with hg | hg | ⟨-, fs, hfs, hg, -⟩
    · exact refers_of_off hf (.inr ⟨j, g, hg, hh⟩)
    · cases hg <;> cases hh
    · rcases holder?_of_ensues hfs hg hh with hheld | ⟨hfh, -⟩
      · exact .inl hheld
      · exact refers_of_holder? hf hfh

/-- New work gets a weak handle only from the first step of a request. -/
theorem handle?_of_ensues (he : Ensues s f fs) (hg : g ∈ fs) (hw : g.handle? = some w) :
    ∃ call x, f = .openRequest call ∧ s.store.holders[call.holder]? = some x ∧
      w = x.downgrade call.holder := by
  cases he with
  | opened call =>
      unfold openingFrames at hg
      split at hg
      · rw [handle?_of_mem_launchFrames hg] at hw
        cases hw
      · next ho =>
          obtain rfl := List.mem_singleton.1 hg
          obtain rfl := Option.some.inj hw
          obtain ⟨-, x, hx, -, -, hmade⟩ := of_vacant_openRequest (congrArg Prod.snd ho)
          exact ⟨call, x, rfl, hx, hmade⟩
      · next ho =>
          obtain ⟨-, x, hx, -, -, hmade⟩ := of_vacant_openRequest (congrArg Prod.snd ho)
          simp only [List.mem_cons, List.not_mem_nil, or_false] at hg
          refine ⟨call, x, rfl, hx, ?_⟩
          rcases hg with rfl | rfl <;> exact (Option.some.inj hw).symm.trans hmade
      · cases hg
  | claimed call item component handle listener =>
      unfold claimFrames at hg
      split at hg
      · rw [handle?_of_mem_launchFrames hg] at hw
        cases hw
      · rw [handle?_of_mem_launchFrames hg] at hw
        cases hw
      · cases hg
  | nothing => cases hg
  | _ =>
      simp only [List.mem_cons, List.not_mem_nil, or_false] at hg
      rcases hg with rfl | rfl | rfl <;> cases hw

theorem live_downgrade {x : Holder} (hr : s.Refers h) (hx : s.store.holders[h]? = some x) :
    s.Live (x.downgrade h) := by
  refine ⟨hr, ?_⟩
  rw [s.store.isOfGeneration_eq (w := x.downgrade h) hx]
  exact decide_eq_true rfl

theorem bears_of_off (hf : s.top? i = some f) (hw : (s.off i).Bears w) : s.Bears w := by
  rcases hw with hw | hw | ⟨j, g, hg, hw⟩
  · exact .inl hw
  · exact .inr (.inl hw)
  · exact .inr (.inr ⟨j, g, (work_off_suffix hf j).subset hg, hw⟩)

/-- A step in which a weak handle is made: a command makes it through a reference to the holder, or
the first step of a request makes it for the factory. -/
structure Makes (s : Session) (i : Nat) (w : WeakHandle) : Prop where
  holder : ∃ x, s.store.holders[w.holder]? = some x ∧ w = x.downgrade w.holder
  frame : (∃ c, s.top? i = some (.command c) ∧ s.Holds w.holder) ∨
    ∃ call, s.top? i = some (.openRequest call) ∧ call.holder = w.holder

theorem Makes.live (hm : s.Makes i w) : s.Live w := by
  obtain ⟨x, hx, hw⟩ := hm.holder
  rw [hw]
  refine live_downgrade ?_ hx
  rcases hm.frame with ⟨c, -, hheld⟩ | ⟨call, hf, hcall⟩
  · exact .inl hheld
  · exact refers_of_holder? hf (congrArg some hcall)

/-- A weak handle that was not there before is made in the step. -/
theorem Sound.makes_of_turn (hs : s.Sound) (hf : s.top? i = some f) (ht : Turn (s.off i) i f s')
    (hw : s'.Bears w) : s.Bears w ∨ s.Makes i w := by
  rcases hw with hw | hw | ⟨j, g, hg, hgw⟩
  · rcases ht.weaks w hw with hw | ⟨c, h, x, rfl, hheld, hx, rfl⟩
    · exact .inl (.inl hw)
    · exact .inr ⟨⟨x, hx, rfl⟩, .inl ⟨c, hf, hheld⟩⟩
  · left
    rw [ht.store] at hw
    rcases (s.off i).store.listens_acts hw with
      hw | ⟨l, hl, ⟨e, c, ha, hc⟩ | ⟨call, item, component, handle, ha⟩⟩
    · exact .inr (.inl hw)
    · have hnone : l.handle = none := licensed ha l hc
      rw [hnone] at hl
      cases hl
    · obtain rfl : f = .claimTree call item component handle (some l) := licensed ha
      obtain ⟨-, -, -, hlistener⟩ := hs.top hf
      obtain rfl := Option.some.inj (hl.symm.trans (hlistener l rfl))
      exact .inr (.inr ⟨i, _, mem_work_of_top? hf rfl, rfl⟩)
  · rcases ht.mem_work hg with hg | hg | ⟨-, fs, hfs, hg, -⟩
    · exact .inl (bears_of_off hf (.inr (.inr ⟨j, g, hg, hgw⟩)))
    · cases hg <;> cases hgw
    · obtain ⟨call, x, rfl, hx, rfl⟩ := handle?_of_ensues hfs hg hgw
      exact .inr ⟨⟨x, hx, rfl⟩, .inr ⟨call, hf, rfl⟩⟩

/-- A weak handle that was not there before is made for a holder that is referred to. -/
theorem Regular.bears_of_turn (ho : s.Regular) (hf : s.top? i = some f) (ht : Turn (s.off i) i f s')
    (hw : s'.Bears w) : s.Bears w ∨ s.Live w :=
  (ho.sound.makes_of_turn hf ht hw).imp_right Makes.live

theorem isOfGeneration_of_issued {u : Store} (hi : u.Issued w) (hs : ¬ u.Stale w) :
    u.isOfGeneration w := by
  obtain ⟨x, hx, hle⟩ := hi
  rw [u.isOfGeneration_eq hx, decide_eq_true_eq]
  exact Nat.le_antisymm (Nat.not_lt.1 fun hlt => hs ⟨x, hx, hlt⟩) hle

/-- A weak handle that does not resolve never will. -/
theorem Regular.live_of_turn (ho : s.Regular) (hf : s.top? i = some f) (ht : Turn (s.off i) i f s')
    (hw : s.Bears w) (hl : s'.Live w) : s.Live w := by
  have hissued := ho.issued hw
  have hstale : ¬ s.store.Stale w := by
    intro hs
    have hlater : s'.store.Stale w :=
      ht.store ▸ Store.acts_induction (P := (·.Stale w)) (fun t a hw => hw.act a) hs _
    have hgen := hlater.isOfGeneration
    rw [hl.2] at hgen
    cases hgen
  refine ⟨?_, isOfGeneration_of_issued hissued hstale⟩
  rcases ho.refers_of_turn hf ht hl.1 with hr | ⟨p, item, policy, factory, -, htaken⟩
  · exact hr
  · cases hp : s.store.offered? p with
    | none =>
        rw [s.store.takeHolder_of_not_offered? hp] at htaken
        exact absurd htaken (Nat.ne_of_lt hissued.lt)
    | some k =>
        rw [s.store.takeHolder_of_offered? hp] at htaken
        obtain rfl : w.holder = k := htaken
        exact absurd (ho.stale_of_idles hw (.of_offered? _ hp)) hstale

end Session

end Recycler

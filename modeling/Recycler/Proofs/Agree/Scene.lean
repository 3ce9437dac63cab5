import Recycler.Proofs.Session.Late
import Recycler.Proofs.Session.Resolve
import Recycler.Proofs.Store.Height

/-!
# One thread at work

While one thread carries a command out and no other thread goes on, what happens can be read off
the frames that the command has put on the thread and the *scene*: everything of the session but its
threads and its log lines. `At` says where such a session is, and `Leads` that a thread is carried
on from one such place to another; `Leads.trans` puts stretches together. What the other threads
are at does not matter, as long as it is no layout request and no release (`Calm`).
-/

namespace Recycler

open Store (Act)

def Sequel.isCommit : Sequel → Bool
  | .commit _ => true
  | _ => false

/-- Whether a frame has to do with a layout and commits none to its holder. -/
def Frame.isIncidental : Frame → Bool
  | .command (.layout ..) => true
  | .command (.runWaiting ..) => true
  | .command (.writeHeight ..) => true
  | .command _ => false
  | .layout _ sequel stage =>
    match stage with
    | .deliver _ => !sequel.isCommit
    | _ => true
  | .giveBack _ => false
  | _ => true

/-- Whether a frame refers to no holder and does not wait for layouts. -/
def Frame.isPlain (f : Frame) : Bool := !f.isServe && !f.isGiveBack && f.holder?.isNone

namespace Session

/-- Everything of a session but its threads and its log lines. -/
def scene (s : Session) : Session := { s with threads := [], logs := [] }

/-- No layout request and no release is in progress on any thread. -/
def Calm (s : Session) : Prop := ∀ j, ∀ f ∈ s.work j, f.holder? = none

/-- A frame of a command that refers to no holder but through a handle in a register. -/
structure Anchored (c : Session) (f : Frame) : Prop where
  works : f.isServe = false
  keeps : f.isGiveBack = false
  held : ∀ h, f.holder? = some h → c.Holds h

/-- In the session `s` the frames `fs` are on top of thread `i`, and but for them the work is that
of the session `b`. The scene is `c`. -/
structure At (b : Session) (i : Nat) (fs : List Frame) (c s : Session) : Prop where
  scene : s.scene = c
  count : s.threads.length = b.threads.length
  stack : ∃ t below, s.threads[i]? = some t ∧ t.stack = fs ++ below ∧
    below.filter (fun f => !f.isServe) = b.work i
  others : ∀ j, j ≠ i → s.work j = b.work j
  anchored : ∀ f ∈ fs, c.Anchored f

variable {b c d e s s' u : Session} {i j h : Nat} {f g : Frame} {fs gs hs : List Frame}
  {w : WeakHandle}

theorem Anchored.plain (hf : f.isPlain) : c.Anchored f := by
  rw [Frame.isPlain, Bool.and_eq_true, Bool.and_eq_true, Bool.not_eq_true', Bool.not_eq_true',
    Option.isNone_iff_eq_none] at hf
  exact ⟨hf.1.1, hf.1.2, fun _ hh => nomatch hf.2.symm.trans hh⟩

theorem Anchored.congr (hf : c.Anchored f) (hd : d.registers.handles = c.registers.handles) :
    d.Anchored f where
  works := hf.works
  keeps := hf.keeps
  held h hh := by
    obtain ⟨name, hn⟩ := hf.held h hh
    exact ⟨name, hd ▸ hn⟩

namespace At

theorem registers (hat : At b i fs c s) : s.registers = c.registers := hat.scene ▸ rfl

theorem store (hat : At b i fs c s) : s.store = c.store := hat.scene ▸ rfl

theorem scripts (hat : At b i fs c s) : s.scripts = c.scripts := hat.scene ▸ rfl

theorem top? (hat : At b i (f :: fs) c s) : s.top? i = some f := by
  obtain ⟨t, below, ht, hstack, -⟩ := hat.stack
  rw [Session.top?, ht, Option.bind_some, hstack]
  rfl

theorem lt (hat : At b i fs c s) : i < s.threads.length := by
  obtain ⟨t, -, ht, -⟩ := hat.stack
  exact (List.getElem?_eq_some_iff.1 ht).1

theorem work (hat : At b i fs c s) : s.work i = fs ++ b.work i := by
  obtain ⟨t, below, ht, hstack, hbelow⟩ := hat.stack
  have hfs : fs.filter (fun f => !f.isServe) = fs :=
    List.filter_eq_self.2 fun f hf => by rw [(hat.anchored f hf).works]; rfl
  rw [Session.work, ht, Option.map_some, Option.getD_some, hstack, List.filter_append, hbelow, hfs]

theorem mem_work (hat : At b i fs c s) (hf : f ∈ s.work j) : f ∈ fs ∨ f ∈ b.work j := by
  by_cases hj : j = i
  · subst hj
    rw [hat.work] at hf
    exact List.mem_append.1 hf
  · rw [hat.others j hj] at hf
    exact .inr hf

/-- A weak handle resolves in the session if it does in its scene. -/
theorem resolve? (hat : At b i fs c s) (hb : b.Calm) (w : WeakHandle) :
    s.resolve? w = c.resolve? w := by
  have hrefers : s.Refers w.holder ↔ c.Refers w.holder := by
    constructor
    · rintro (hh | ⟨j, f, hf, hh⟩)
      · obtain ⟨name, hn⟩ := hh
        exact .inl ⟨name, hat.registers ▸ hn⟩
      · rcases hat.mem_work hf with hf | hf
        · exact .inl ((hat.anchored f hf).held _ hh)
        · exact nomatch (hb j f hf).symm.trans hh
    · rintro (hh | ⟨j, f, hf, -⟩)
      · obtain ⟨name, hn⟩ := hh
        exact .inl ⟨name, hat.registers ▸ hn⟩
      · rw [← hat.scene] at hf
        exact nomatch hf
  have halive : s.isAlive w.holder = c.isAlive w.holder := by
    rw [isAlive, isAlive, hat.store]
    congr 1
    exact decide_eq_decide.2
      (references_pos_iff.trans (hrefers.trans references_pos_iff.symm))
  rw [Session.resolve?, Session.resolve?, halive, hat.store]

/-! ## Where a session is after a part of a step -/

theorem congr (hat : At b i fs c s) (ht : s'.threads = s.threads) (hd : s'.scene = d)
    (hh : d.registers.handles = c.registers.handles) : At b i fs d s' where
  scene := hd
  count := ht ▸ hat.count
  stack := ht ▸ hat.stack
  others j hj := by
    rw [Session.work, ht]
    exact hat.others j hj
  anchored f hf := (hat.anchored f hf).congr hh

theorem off (hat : At b i (f :: fs) c s) : At b i fs c (s.off i) where
  scene := hat.scene
  count := (length_off s i).trans hat.count
  stack := by
    obtain ⟨t, below, ht, hstack, hbelow⟩ := hat.stack
    refine ⟨{ t with stack := t.stack.tail }, below, ?_, by rw [hstack]; rfl, hbelow⟩
    simp [Session.off, modifyThread, ht]
  others j hj := (work_off s hj).trans (hat.others j hj)
  anchored g hg := hat.anchored g (List.mem_cons_of_mem f hg)

theorem push (hat : At b i fs c s) (gs : List Frame) (hgs : ∀ g ∈ gs, c.Anchored g) :
    At b i (gs ++ fs) c (s.push i gs) where
  scene := hat.scene
  count := (List.length_modify ..).trans hat.count
  stack := by
    obtain ⟨t, below, ht, hstack, hbelow⟩ := hat.stack
    refine ⟨t.push gs, below, by simp [Session.push, modifyThread, ht], ?_, hbelow⟩
    rw [Thread.push, hstack, List.append_assoc]
  others j hj := by rw [work_push, if_neg fun h => hj h.1, hat.others j hj]
  anchored f hf := (List.mem_append.1 hf).elim (hgs f) (hat.anchored f)

theorem pushPlain (hat : At b i fs c s) (gs : List Frame) (hgs : gs.all Frame.isPlain) :
    At b i (gs ++ fs) c (s.push i gs) :=
  hat.push gs fun g hg => .plain (List.all_eq_true.1 hgs g hg)

theorem answer (hat : At b i fs c s) (r : Reply) : At b i fs c (s.answer i r) where
  scene := hat.scene
  count := (like_answer s i r).count.trans hat.count
  stack := by
    obtain ⟨t, below, ht, hstack, hbelow⟩ := hat.stack
    refine ⟨t.answer r, below, ?_, hstack, hbelow⟩
    simp [Session.answer, modifyThread, ht]
  others j hj := ((like_answer s i r).work j).trans (hat.others j hj)
  anchored := hat.anchored

theorem write (hat : At b i fs c s) (lines : List Log) : At b i fs c (s.write lines) :=
  hat.congr rfl hat.scene rfl

theorem report (hat : At b i fs c s) (e : Event) : At b i fs (c.report e) (s.report e) :=
  hat.congr rfl (congrArg (·.report e) hat.scene) rfl

theorem modifyStore (hat : At b i fs c s) (f : Store → Store) :
    At b i fs (c.modifyStore f) (s.modifyStore f) :=
  hat.congr rfl (congrArg (·.modifyStore f) hat.scene) rfl

/-- The end of a worker leaves everything that is on top where it is. -/
theorem stack_dismiss (hat : At b i fs c s) (q : Nat) : ∃ t below,
    (s.dismiss q).threads[i]? = some t ∧ t.stack = fs ++ below ∧
      below.filter (fun f => !f.isServe) = b.work i := by
  obtain ⟨t, below, ht, hstack, hbelow⟩ := hat.stack
  have hfs : fs.filter (fun f => !f.serves q) = fs := by
    refine List.filter_eq_self.2 fun f hf => ?_
    have hworks := (hat.anchored f hf).works
    cases f with
    | serve p => cases hworks
    | _ => rfl
  unfold Session.dismiss
  split
  · refine ⟨t.retire q, below.filter fun f => !f.serves q, by simp [Session.write, ht], ?_, ?_⟩
    · rw [Thread.retire, hstack, List.filter_append, hfs]
    · rw [← hbelow, List.filter_filter]
      refine List.filter_congr fun f _ => ?_
      cases f with
      | serve p => rfl
      | _ => rfl
  · exact ⟨t, below, ht, hstack, hbelow⟩

theorem dismiss (hat : At b i fs c s) (q : Nat) : At b i fs c (s.dismiss q) where
  scene := by
    rw [← hat.scene, Session.dismiss]
    split <;> rfl
  count := (like_dismiss s q).count.trans hat.count
  stack := hat.stack_dismiss q
  others j hj := ((like_dismiss s q).work j).trans (hat.others j hj)
  anchored := hat.anchored

theorem dismissSince (hat : At b i fs c s) (before : Session) :
    At b i fs c (s.dismissSince before) := by
  unfold Session.dismissSince
  dsimp only
  generalize List.reverse _ = queues
  induction queues generalizing s with
  | nil => exact hat
  | cons q queues ih => exact ih (hat.dismiss q)

/-! ## Steps -/

/-- The frame on top is carried on. -/
theorem carry (hat : At b i (f :: fs) c s) (hblocked : s.isBlocked f = false)
    (hnext : At b i gs d ((s.off i).stepFrame i f)) :
    ∃ s', s.next? (.carry i) = some s' ∧ At b i gs d s' ∧
      s'.reply? i = ((s.off i).stepFrame i f).reply? i :=
  ⟨_, next?_carry_eq hat.top? hblocked, hnext.dismissSince s, reply?_dismissSince _ s⟩

/-- A command that is at its end is taken off the thread. -/
theorem conclude (hat : At b i (.conclude :: fs) c s) :
    ∃ s', s.next? (.carry i) = some s' ∧ At b i fs c s' ∧ s'.reply? i = s.reply? i := by
  obtain ⟨s', hn, hat', hreply⟩ := hat.carry rfl hat.off
  refine ⟨s', hn, hat', hreply.trans ?_⟩
  rw [stepFrame, reply?, reply?, Session.off, modifyThread, List.getElem?_modify]
  cases s.threads[i]? <;> simp

end At

/-! ## Stretches -/

/-- Only the height that comes in through a weak handle is set on the way. -/
theorem dictates_frameActs {a : Act} (hf : f.isIncidental) (ha : a ∈ s.frameActs i f) :
    a.dictates = false := by
  cases f with
  | command c =>
      cases c with
      | writeHeight weak height =>
          cases hw : s.weakHandle weak with
          | error trouble => simp [commandActs, hw] at ha
          | ok w =>
              rw [frameActs_command, commandActs_writeHeight hw] at ha
              split at ha
              · rw [List.mem_singleton.1 ha]
                rfl
              · cases ha
      | layout | runWaiting => cases ha
      | _ => cases hf
  | openRequest call =>
      rcases List.mem_cons.1 ha with rfl | ha
      · rfl
      · split at ha
        · obtain ⟨q, rfl⟩ := mem_launchActs ha
          rfl
        · cases ha
  | claimTree call item component handle listener =>
      rcases List.mem_cons.1 ha with rfl | ha
      · rfl
      · obtain ⟨q, l, rfl⟩ := mem_tail_claimActs (s := s) ha
        rfl
  | layout l sequel stage =>
      cases stage with
      | notifyMeasured size ready =>
          obtain ⟨w, rfl⟩ := mem_listenerActs ha
          rfl
      | enter | settle =>
          rw [List.mem_singleton.1 ha]
          rfl
      | deliver outcome =>
          cases sequel with
          | commit r => cases hf
          | _ => cases outcome <;> cases ha
      | _ => cases ha
  | runWaiting q remaining count =>
      rw [frameActs] at ha
      split at ha
      · cases ha
      · rw [List.mem_singleton.1 ha]
        rfl
  | confirm | serve =>
      rw [List.mem_singleton.1 ha]
      rfl
  | giveBack h => cases hf
  | _ => cases ha

/-- A thread can be carried on to a session as `P` says, and no layout is committed to a holder on
the way. -/
def Reaches (s : Session) (i : Nat) (P : Session → Prop) : Prop :=
  ∃ n s', s.follow? (List.replicate n (.carry i)) = some s' ∧
    (∀ a ∈ s.runActs (List.replicate n (.carry i)), a.dictates = false) ∧ P s'

variable {P Q : Session → Prop}

theorem Reaches.trans (h : s.Reaches i P) (h' : ∀ s', P s' → s'.Reaches i Q) : s.Reaches i Q := by
  obtain ⟨n, s', hrun, hacts, hs'⟩ := h
  obtain ⟨m, s'', hrun', hacts', hs''⟩ := h' s' hs'
  refine ⟨n + m, s'', ?_, ?_, hs''⟩
  · rw [← List.replicate_append_replicate]
    exact follow?_trans hrun hrun'
  · rw [← List.replicate_append_replicate, runActs_append hrun]
    exact fun a ha => (List.mem_append.1 ha).elim (hacts a) (hacts' a)

theorem Reaches.step (hf : s.top? i = some f) (hincidental : f.isIncidental)
    (hn : s.next? (.carry i) = some s') (hs' : P s') : s.Reaches i P := by
  refine ⟨1, s', follow?_singleton hn, fun a ha => ?_, hs'⟩
  rw [List.replicate_one, runActs_cons hn, momentActs_carry hf, runActs_nil, List.append_nil] at ha
  exact dictates_frameActs hincidental ha

/-- From wherever the frames `fs` are on top of the thread and the scene is `c`, the thread can be
carried on until it is at `gs` and the scene is `d`. -/
def Leads (b : Session) (i : Nat) (fs : List Frame) (c : Session) (gs : List Frame)
    (d : Session) : Prop :=
  ∀ s, At b i fs c s → s.Reaches i (At b i gs d)

theorem Leads.trans (h : Leads b i fs c gs d) (h' : Leads b i gs d hs e) :
    Leads b i fs c hs e := fun s hat => (h s hat).trans h'

/-- A stretch of one step. -/
theorem Leads.step (hf : f.isIncidental)
    (hnext : ∀ s, At b i (f :: fs) c s → s.isBlocked f = false ∧
      At b i gs d ((s.off i).stepFrame i f)) : Leads b i (f :: fs) c gs d := by
  intro s hat
  obtain ⟨hblocked, hnext⟩ := hnext s hat
  obtain ⟨s', hn, hat', -⟩ := hat.carry hblocked hnext
  exact .step hat.top? hf hn hat'

end Session
end Recycler

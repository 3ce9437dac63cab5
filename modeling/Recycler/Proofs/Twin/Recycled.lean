import Recycler.Proofs.Twin.Acquire

/-!
# Recycled holders

Sessions that mirror each other go on mirroring each other, whatever happens next in an unbroken run
(`Mirrors.next?`), under a renaming that is changed wherever an item acquires a holder. A session
mirrors itself without what a pool keeps. There the next item of the pool gets a new holder in place
of one used before, and by `Orderly.recycled_as_new` nobody can tell.
-/

namespace Recycler

/-! ## The renaming that changes nothing -/

def Renaming.same : Renaming := ⟨fun h => h, fun w => w⟩

theorem MeasureListener.rename_same (l : MeasureListener) : l.rename .same = l := by
  obtain ⟨f, _ | w⟩ := l <;> rfl

theorem Tree.rename_same (t : Tree) : t.rename .same = t := by
  have hlistener : t.config.listener.map (·.rename .same) = t.config.listener := by
    cases t.config.listener with
    | none => rfl
    | some l => exact congrArg some l.rename_same
  unfold Tree.rename Tree.Config.rename
  rw [hlistener]

theorem Engine.map_rename_same (es : List Engine) : es.map (·.rename .same) = es := by
  have htrees (ts : List Tree) : ts.map (·.rename .same) = ts :=
    (List.map_congr_left fun t _ => t.rename_same).trans (List.map_id _)
  refine (List.map_congr_left fun e _ => ?_).trans (List.map_id _)
  unfold Engine.rename
  rw [htrees]
  rfl

theorem Frame.rename_same (f : Frame) : f.rename .same = f := by
  cases f with
  | claimTree call item component handle listener =>
      cases listener with
      | none => rfl
      | some l =>
          exact congrArg (fun l => Frame.claimTree call item component handle (some l))
            l.rename_same
  | layout l sequel stage => cases sequel <;> rfl
  | _ => rfl

theorem Frame.map_rename_same (fs : List Frame) : fs.map (·.rename .same) = fs :=
  (List.map_congr_left fun f _ => f.rename_same).trans (List.map_id _)

theorem Registers.rename_same {r : Registers} : r.rename .same = r := by
  have hvalues {α : Type} (m : Keyed String α) : m.mapValues (fun a => a) = m :=
    Keyed.eq_of_entries (List.map_id _)
  unfold Registers.rename Renaming.same
  rw [hvalues, hvalues]

namespace Session

variable {ρ ρ' : Renaming} {P Q : Nat → Prop} {s s' t t' : Session} {i : Nat} {f : Frame}
  {m : Moment}

theorem Twin.mono (h : s.Twin ρ P s') (hQ : ∀ k, Q k → P k) : s.Twin ρ Q s' :=
  { h with
    inj := fun a b ha hb => h.inj a b (hQ a ha) (hQ b hb)
    store := ⟨h.store.toAlike, fun k hk => h.store.holders k (hQ k hk)⟩ }

theorem Twin.isBlocked (h : s.Twin ρ P s') (f : Frame) :
    s'.isBlocked (f.rename ρ) = s.isBlocked f := by
  cases f with
  | layout l sequel stage =>
      cases stage with
      | gate g =>
          unfold Session.isBlocked Frame.rename
          rw [h.store.gates]
      | _ => rfl
  | serve q =>
      unfold Session.isBlocked Frame.rename
      rw [h.store.queues]
  | _ => rfl

/-! ## One step -/

theorem Regular.refers_of_no_acquire (ho : s.Regular) (hf : s.top? i = some f)
    (ht : Turn (s.off i) i f t)
    (hno : ∀ p item policy factory, .acquire p item policy factory ∉ (s.off i).frameActs i f)
    (k : Nat) (hk : t.Refers k) : s.Refers k := by
  rcases ho.refers_of_turn hf ht hk with hr | ⟨p, item, policy, factory, ha, -⟩
  · exact hr
  · exact absurd ha (hno p item policy factory)

/-- A step in sessions that mirror each other, before workers end. -/
theorem Mirrors.stepFrame (hm : s.Mirrors ρ s') (ho : s.Regular) (ho' : s'.Regular)
    (hf : s.top? i = some f) (ht : Turn (s.off i) i f ((s.off i).stepFrame i f)) :
    ∃ ρ' Q, s.Agrees ρ ρ' ∧ (∀ k, s.Refers k → Q k) ∧
      (∀ k, ((s.off i).stepFrame i f).Refers k → Q k) ∧
      ((s.off i).stepFrame i f).Twin ρ' Q ((s'.off i).stepFrame i (f.rename ρ)) := by
  rcases (s.off i).acquires_alone i f with ⟨p, item, policy, factory, hone⟩ | hno
  · obtain ⟨-, name, settings, pool, into, rfl, hitem, hpolicy, hp⟩ :=
      licensed (hone ▸ List.mem_singleton_self (Store.Act.acquire p item policy factory))
    obtain ⟨ρ', hagrees, htwin⟩ := hm.acquire ho ho' hitem hpolicy hp i factory into
    refine ⟨ρ', _, hagrees, fun k hk => .inl hk, fun k hk => ?_, htwin⟩
    rcases ho.refers_of_turn hf ht hk with hr | ⟨q, item', policy', factory', hq, rfl⟩
    · exact .inl hr
    · rw [hone, List.mem_singleton] at hq
      obtain ⟨rfl, -⟩ := Store.Act.acquire.inj hq
      exact .inr rfl
  · refine ⟨ρ, s.Refers, .refl s ρ, fun k hk => hk, ho.refers_of_no_acquire hf ht hno, ?_⟩
    have hoff := hm.twin.off i
    by_cases hc : ∃ item settings factory pool into,
        f = .command (.acquire item settings factory pool into)
    · obtain ⟨name, settings, factory, pool, into, rfl⟩ := hc
      refine Both.stepCommand hoff
        (hoff.acquire_of_trouble (fun item policy p hitem hpolicy hp => ?_) ..)
      refine hno p item policy factory ?_
      rw [frameActs_command, commandActs_acquire hitem hpolicy hp]
      exact List.mem_singleton_self _
    · refine hoff.stepFrame (hm.fits ho ho' hf fun item settings factory pool into h => ?_)
      exact hc ⟨item, settings, factory, pool, into, h⟩

/-- A weak handle that is live after a step in one session is so in the other. -/
theorem Mirrors.live_of_turn (hm : s.Mirrors ρ s') (ho : s.Regular) (ho' : s'.Regular)
    (hf : s.top? i = some f) (hturn : Turn (s.off i) i f t)
    (hturn' : Turn (s'.off i) i (f.rename ρ) t') (ha : s.Agrees ρ ρ')
    (hQ : ∀ k, s.Refers k → Q k) (hQ' : ∀ k, t.Refers k → Q k) (ht : t.Twin ρ' Q t')
    {w : WeakHandle} (hw : t.Bears w) (hl : t'.Live (ρ'.handle w)) : t.Live w := by
  have hf' : s'.top? i = some (f.rename ρ) := by
    rw [hm.twin.top?, hf]
    rfl
  have hold : s.Live w := by
    rcases ho.bears_of_turn hf hturn hw with hb | hlive
    · rw [ha.bears w hb] at hl
      exact hm.live w hb (ho'.live_of_turn hf' hturn' (hm.twin.bears hb) hl)
    · exact hlive
  have hheld := hold.1
  obtain ⟨x, g, hx, hx', hmade⟩ := hm.twin.store.holders _ hheld
  obtain ⟨y, g', hy, hy', hmade'⟩ := ht.store.holders _ (hQ _ hheld)
  have hgen := hold.2
  rw [s.store.isOfGeneration_eq hx, decide_eq_true_eq] at hgen
  have hle : x.generation ≤ y.generation := by
    have hissued := Store.acts_induction (P := (·.Issued w)) (fun u a hw => hw.act a)
      ⟨x, hx, Nat.le_of_eq hgen.symm⟩ ((s.off i).frameActs i f)
    obtain ⟨z, hz, hle⟩ := hturn.store ▸ hissued
    obtain rfl := Option.some.inj (hz.symm.trans hy)
    omega
  -- both holders were released as often as the other in this step
  have hafter : g' = g + (y.generation - x.generation) := by
    have h₁ := hmade (y.generation - x.generation)
    have h₂ := hmade' 0
    rw [Nat.add_sub_cancel' hle, ← ha.handle _ _ hheld] at h₁
    rw [Nat.add_zero, h₁] at h₂
    exact (congrArg WeakHandle.generation h₂).symm
  have hwhole : ρ'.handle w = ⟨ρ'.holder w.holder, g⟩ := by
    have h₁ := hmade 0
    rw [Nat.add_zero, hgen, ← ha.handle _ _ hheld, ← ha.holder _ hheld] at h₁
    exact h₁
  rw [hwhole] at hl
  obtain ⟨hrefers, hgen'⟩ := hl
  rw [t'.store.isOfGeneration_eq (w := ⟨ρ'.holder w.holder, g⟩) hy', decide_eq_true_eq] at hgen'
  obtain ⟨k, hk, hsame⟩ := ht.refers_iff.1 hrefers
  obtain rfl := ht.inj k w.holder (hQ' k hk) (hQ _ hheld) hsame
  refine ⟨hk, ?_⟩
  rw [t.store.isOfGeneration_eq hy, decide_eq_true_eq]
  dsimp only at hgen'
  omega

theorem Mirrors.advance? (hm : s.Mirrors ρ s') (ho : s.Regular) (ho' : s'.Regular)
    (hnext : ∀ t, s.advance? i = some t → t.Regular)
    (hnext' : ∀ t, s'.advance? i = some t → t.Regular) :
    ∃ ρ', Option.Rel (Mirrors ρ') (s.advance? i) (s'.advance? i) := by
  have hs := s.advance?_eq i
  have hs' := s'.advance?_eq i
  rw [hm.twin.top? i] at hs'
  cases hf : s.top? i with
  | none =>
      rw [hf] at hs hs'
      rw [hs, hs']
      exact ⟨ρ, .none⟩
  | some f =>
      have hblocked := hm.twin.isBlocked f
      rw [hf, Option.bind_some] at hs
      rw [hf, Option.map_some, Option.bind_some, hblocked] at hs'
      cases hb : s.isBlocked f with
      | true =>
          rw [hb] at hs hs'
          rw [hs, hs']
          exact ⟨ρ, .none⟩
      | false =>
          rw [hb, if_neg Bool.false_ne_true] at hs hs'
          obtain ⟨g, hg, hturn⟩ := turn_of_advance? hs
          obtain rfl := Option.some.inj (hg.symm.trans hf)
          obtain ⟨g', hg', hturn'⟩ := turn_of_advance? hs'
          rw [hm.twin.top?, hf] at hg'
          obtain rfl := Option.some.inj hg'
          have hlike := like_dismissSince ((s.off i).stepFrame i g) s
          have hlike' := like_dismissSince ((s'.off i).stepFrame i (g.rename ρ)) s'
          obtain ⟨ρ', Q, hagrees, hQ, hQ', htwin⟩ :=
            hm.stepFrame ho ho' hf (hturn.like hlike.symm)
          have hbefore := hm.twin.mem_queuesInUse ho.unused ho'.unused
          have hkept := (htwin.mono hQ').mem_queuesInUse ((hnext _ hs).like hlike.symm).unused
            ((hnext' _ hs').like hlike'.symm).unused
          have hdismissed := htwin.dismissSince hbefore hkept
          have hsub (k : Nat) (hk : (((s.off i).stepFrame i g).dismissSince s).Refers k) : Q k :=
            hQ' k (hlike.refers hk)
          rw [hs, hs']
          refine ⟨ρ', .some ⟨hdismissed.mono hsub, fun w hw hl => ?_⟩⟩
          exact hm.live_of_turn ho ho' hf hturn hturn' hagrees hQ hsub hdismissed hw hl

/-! ## Runs -/

theorem refers_of_push {fs : List Frame} (hfs : ∀ f ∈ fs, f.holder? = none) {k : Nat}
    (hr : (s.push i fs).Refers k) : s.Refers k := by
  rcases hr with hr | ⟨j, f, hf, hk⟩
  · exact .inl hr
  · rcases mem_work_push hf with hf | hf
    · rw [hfs f hf] at hk
      cases hk
    · exact .inr ⟨j, f, hf, hk⟩

theorem bears_of_push {fs : List Frame} (hfs : ∀ f ∈ fs, f.handle? = none) {w : WeakHandle}
    (hw : (s.push i fs).Bears w) : s.Bears w := by
  rcases hw with hw | hw | ⟨j, f, hf, hw⟩
  · exact .inl hw
  · exact .inr (.inl hw)
  · rcases mem_work_push hf with hf | hf
    · rw [hfs f hf] at hw
      cases hw
    · exact .inr (.inr ⟨j, f, hf, hw⟩)

/-- Sessions go on mirroring each other when nothing more is referred to in them. -/
theorem Mirrors.of_sub (hm : s.Mirrors ρ s') (htwin : t.Twin ρ s.Refers t')
    (hstore : t.store = s.store) (hstore' : t'.store = s'.store)
    (hsub : ∀ k, t.Refers k → s.Refers k) (hbears : ∀ w, t.Bears w → s.Bears w) :
    t.Mirrors ρ t' := by
  refine ⟨htwin.mono hsub, fun w hw hl => ?_⟩
  obtain ⟨k, hk, hholder⟩ := htwin.refers_iff.1 hl.1
  have hl' : s'.Live (ρ.handle w) :=
    ⟨hm.twin.refers_iff.2 ⟨k, hsub k hk, hholder⟩, hstore' ▸ hl.2⟩
  have hs := hm.live w (hbears w hw) hl'
  obtain ⟨hsame, -⟩ := hm.twin.live hs.1 hs
  obtain rfl := hm.twin.inj k w.holder (hsub k hk) hs.1 (hholder.trans hsame)
  exact ⟨hk, hstore ▸ hs.2⟩

/-- A moment comes between the two steps of a release in both sessions, or in none. -/
theorem Twin.interrupts (h : s.Twin ρ P s') (m : Moment) : s'.interrupts m = s.interrupts m := by
  cases m with
  | give j c => exact h.isReleasing
  | carry j =>
      rw [Session.interrupts, Session.interrupts, h.isReleasing, h.top?]
      cases s.top? j with
      | none => rfl
      | some f => rw [Option.map_some, Option.any_some, Option.any_some, f.isGiveBack_rename]
  | look k => rfl

/-- Whatever happens next can happen in both sessions, or in none. -/
theorem Mirrors.next? (hm : s.Mirrors ρ s') (ho : s.Regular) (ho' : s'.Regular)
    (hfree : s.interrupts m = false) :
    ∃ ρ', Option.Rel (Mirrors ρ') (s.next? m) (s'.next? m) := by
  have hfree' : s'.interrupts m = false := (hm.twin.interrupts m).trans hfree
  cases m with
  | give j c =>
      have hcleared : { s with events := [], logs := [] }.Twin ρ s.Refers
          { s' with events := [], logs := [] } := { hm.twin with events := Event.allAlike_nil }
      have hgiven := hcleared.push j [.command c, .conclude]
      have hnew : ∀ f ∈ [Frame.command c, .conclude], f.holder? = none ∧ f.handle? = none := by
        simp [Frame.holder?, Frame.call?, Frame.handle?]
      rw [Session.next?, Session.next?, hm.twin.count]
      split
      · refine ⟨ρ, .some (hm.of_sub hgiven rfl rfl (fun k hk => ?_) fun w hw => ?_)⟩
        · exact refers_of_push (s := { s with events := [], logs := [] })
            (fun f hf => (hnew f hf).1) hk
        · exact bears_of_push (s := { s with events := [], logs := [] })
            (fun f hf => (hnew f hf).2) hw
      · exact ⟨ρ, .none⟩
  | carry j => exact hm.advance? ho ho' (fun t => ho.next? hfree) fun t => ho'.next? hfree'
  | look k =>
      have hlike := s.like_view? k
      have hlike' := s'.like_view? k
      exact ⟨ρ, .some (hm.of_sub (hm.twin.look k k) hlike.store hlike'.store
        (fun _ hk => hlike.refers hk) fun _ hw => hlike.bears hw)⟩

/-- Each moment of an unbroken run can come in both sessions or in none, and after the run they
mirror each other still. -/
theorem Mirrors.follow? (hm : s.Mirrors ρ s') (ho : s.Regular) (ho' : s'.Regular)
    (ms : List Moment) : s'.unbroken ms = s.unbroken ms ∧ (s.unbroken ms →
      ∃ ρ', Option.Rel (fun t t' => t.Mirrors ρ' t' ∧ t.Regular ∧ t'.Regular)
        (s.follow? ms) (s'.follow? ms)) := by
  induction ms generalizing s s' ρ with
  | nil => exact ⟨rfl, fun _ => ⟨ρ, .some ⟨hm, ho, ho'⟩⟩⟩
  | cons m ms ih =>
      have hsame := hm.twin.interrupts m
      cases hfree : s.interrupts m with
      | true =>
          rw [hfree] at hsame
          rw [unbroken, unbroken, hfree, hsame]
          exact ⟨rfl, fun h => absurd h Bool.false_ne_true⟩
      | false =>
          rw [hfree] at hsame
          obtain ⟨ρ₁, hrel⟩ := hm.next? ho ho' hfree
          rw [follow?_cons, follow?_cons, unbroken, unbroken, hfree, hsame]
          cases ht : s.next? m <;> cases ht' : s'.next? m <;> rw [ht, ht'] at hrel <;> cases hrel
          · exact ⟨rfl, fun _ => ⟨ρ, .none⟩⟩
          · next hm₁ => exact ih hm₁ (ho.next? hfree ht) (ho'.next? hsame ht')

/-! ## Sessions that nobody can tell apart -/

/-- Two sessions differ in nothing but the identity of holders, the generations of weak handles and
what pools keep. -/
structure Indistinct (s s' : Session) : Prop where
  replies : ∀ i : Nat, Option.Rel (Reply.Alike s.shown.length s'.shown.length)
    (s.threads[i]?.map (·.reply)) (s'.threads[i]?.map (·.reply))
  events : Event.AllAlike s.shown.length s'.shown.length s.events s'.events
  /-- As much work is under way on each thread. -/
  work : ∀ i : Nat, s'.threads[i]?.map (·.stack.length) = s.threads[i]?.map (·.stack.length)
  /-- The holder of a handle has the same in both sessions. -/
  holders : ∀ name, Option.Rel
    (fun h h' => ∃ x g, s.store.holders[h]? = some x ∧
      s'.store.holders[h']? = some { x with generation := g })
    (s.registers.handles.get? name) (s'.registers.handles.get? name)
  /-- Two handles are of one instance in both sessions or in none. -/
  instances : ∀ a b, s'.registers.handles.get? a = s'.registers.handles.get? b ↔
    s.registers.handles.get? a = s.registers.handles.get? b
  /-- A weak handle resolves in both sessions or in none. -/
  weaks : ∀ name, Option.Rel (fun w w' => (s'.resolve? w').isSome = (s.resolve? w).isSome)
    (s.registers.weaks.get? name) (s'.registers.weaks.get? name)
  /-- The trees are the same but for the handles that their listeners were made with. -/
  engines : ∃ ρ : Renaming, s'.store.engines = s.store.engines.map (·.rename ρ)
  gates : s'.store.gates = s.store.gates
  queues : s'.store.queues = s.store.queues
  capacities : s'.store.capacities = s.store.capacities
  scripts : s'.scripts = s.scripts
  issuedItems : s'.issuedItems = s.issuedItems

theorem Mirrors.indistinct (hm : s.Mirrors ρ s') (ho : s.Regular) (ho' : s'.Regular) :
    s.Indistinct s' where
  replies i := by
    have ht := hm.twin.threads i
    revert ht
    cases s.threads[i]? <;> cases s'.threads[i]? <;> intro ht <;> cases ht
    · exact .none
    · next ht => exact .some ht.reply
  events := hm.twin.events
  work i := by
    have hlength := congrArg (Option.map List.length) (hm.twin.stack i)
    simpa [Function.comp_def] using hlength
  holders name := by
    rw [hm.twin.registers, Registers.rename]
    dsimp only
    rw [Keyed.get?_mapValues]
    cases hh : s.registers.handles.get? name with
    | none => exact .none
    | some h =>
        obtain ⟨x, g, hx, hx', -⟩ := hm.twin.store.holders h (.inl ⟨name, hh⟩)
        exact .some ⟨x, g, hx, hx'⟩
  instances a b := by
    rw [hm.twin.registers, Registers.rename]
    dsimp only
    rw [Keyed.get?_mapValues, Keyed.get?_mapValues]
    refine ⟨fun h => ?_, fun h => by rw [h]⟩
    cases ha : s.registers.handles.get? a with
    | none =>
        cases hb : s.registers.handles.get? b with
        | none => rfl
        | some k =>
            rw [ha, hb] at h
            cases h
    | some j =>
        cases hb : s.registers.handles.get? b with
        | none =>
            rw [ha, hb] at h
            cases h
        | some k =>
            rw [ha, hb] at h
            exact congrArg some
              (hm.twin.inj j k (.inl ⟨a, ha⟩) (.inl ⟨b, hb⟩) (Option.some.inj h))
  weaks name := by
    rw [hm.twin.registers, Registers.rename]
    dsimp only
    rw [Keyed.get?_mapValues]
    cases hw : s.registers.weaks.get? name with
    | none => exact .none
    | some w =>
        obtain ⟨hresolve, -⟩ :=
          hm.faithful ho ho' hm.twin rfl rfl (fun _ hk => hk) (.inl ⟨name, hw⟩)
        refine .some ?_
        rw [hresolve, Option.isSome_map]
  engines := ⟨ρ, hm.twin.store.engines⟩
  gates := hm.twin.store.gates
  queues := hm.twin.store.queues
  capacities := hm.twin.store.capacities
  scripts := hm.twin.scripts
  issuedItems := hm.twin.issuedItems

/-! ## A session without what a pool keeps -/

/-- The session without the holders that a pool keeps, so that the next item of the pool gets a new
one. -/
def withoutIdle (s : Session) (p : Nat) : Session := s.modifyStore (·.modifyPool p Pool.clear)

theorem idles_withoutIdle {p q h : Nat} (hi : (s.withoutIdle p).store.Idles q h) :
    s.store.Idles q h := by
  obtain ⟨pool, hpool, hh⟩ := hi
  rw [withoutIdle, modifyStore, Store.pool?_modifyPool] at hpool
  split at hpool
  · obtain ⟨old, -, rfl⟩ := Option.map_eq_some_iff.1 hpool
    cases hh
  · exact ⟨pool, hpool, hh⟩

theorem Regular.withoutIdle (ho : s.Regular) (p : Nat) : (s.withoutIdle p).Regular where
  sound :=
    { owned := ho.sound.owned.act (.clearPool p)
      frames := fun j f hf => Frame.Sound.act (ho.sound.frames j f hf) (.clearPool p)
      handles := ho.sound.handles
      weaks := ho.sound.weaks
      listeners := ho.sound.listeners
      waiting := ho.sound.waiting
      idle := fun q h hi => ho.sound.idle q h (idles_withoutIdle hi) }
  rested :=
    { idle := fun q h hi => by
        obtain ⟨hu, hfresh, hcut⟩ := ho.rested.idle q h (idles_withoutIdle hi)
        exact ⟨⟨hu.unheld, hu.workless⟩, hfresh, hcut⟩
      nodup := fun q pool hpool => by
        rw [Session.withoutIdle, modifyStore, Store.pool?_modifyPool] at hpool
        split at hpool
        · obtain ⟨old, -, rfl⟩ := Option.map_eq_some_iff.1 hpool
          exact List.nodup_nil
        · exact ho.rested.nodup q pool hpool
      releasing := fun j h hg => by
        obtain ⟨hfresh, hcut, habsent⟩ := ho.rested.releasing j h hg
        exact ⟨hfresh, hcut, fun q hi => habsent q (idles_withoutIdle hi)⟩ }
  escorted := ho.escorted

/-- A session mirrors itself without what a pool keeps. -/
theorem Regular.mirrors_withoutIdle (ho : s.Regular) (p : Nat) :
    s.Mirrors .same (s.withoutIdle p) where
  twin :=
    { inj := fun a b _ _ hab => hab
      store := by
        refine ⟨⟨?_, rfl, rfl, ?_⟩, fun k hk => ?_⟩
        · exact (Engine.map_rename_same _).symm
        · exact Store.capacities_modifyPool _ p fun _ => rfl
        · have hlt : k < s.store.holders.length := ho.lt_of_refers hk
          have hx := List.getElem?_eq_getElem hlt
          exact ⟨_, _, hx, hx, fun n => rfl⟩
      registers := Registers.rename_same.symm
      count := rfl
      threads := fun j => by
        change Option.Rel _ s.threads[j]? s.threads[j]?
        cases s.threads[j]? with
        | none => exact .none
        | some t => exact .some ⟨(Frame.map_rename_same _).symm, .refl _⟩
      events := Event.allAlike_refl _
      scripts := rfl
      issuedItems := rfl
      issuedComponents := rfl
      allocations := rfl }
  live _ _ hl := ⟨hl.1, hl.2⟩

/-- A holder that a pool keeps has everything that a new one has, the generation apart. And nobody
can tell whether an item got one of them or a new one: whatever can happen in an unbroken run of the
session can happen without what a pool keeps, and the other way round, and at no time can the two be
told apart. -/
theorem Orderly.recycled_as_new (hs : s.Orderly) (p : Nat) :
    (∀ q h, s.store.Idles q h →
      ∃ g, s.store.holders[h]? = some { Holder.fresh q with generation := g }) ∧
    (∀ h, s.store.offered? p = some h → (s.store.takeHolder p).2 = (h, true)) ∧
    ((s.withoutIdle p).store.takeHolder p).2 = (s.store.holders.length, false) ∧
    ∀ ms, (s.withoutIdle p).unbroken ms = s.unbroken ms ∧ (s.unbroken ms →
      Option.Rel Indistinct (s.follow? ms) ((s.withoutIdle p).follow? ms)) := by
  have ho := hs.regular
  have ho' := ho.withoutIdle p
  refine ⟨ho.unused, fun h hp => ?_, ?_, fun ms => ?_⟩
  · rw [s.store.takeHolder_of_offered? hp]
  · have hp : (s.withoutIdle p).store.offered? p = none := by
      rw [Store.offered?, withoutIdle, modifyStore, Store.pool?_modifyPool, if_pos rfl]
      cases s.store.pool? p <;> rfl
    rw [Store.takeHolder_of_not_offered? _ hp]
    rfl
  · obtain ⟨hsame, hruns⟩ := (ho.mirrors_withoutIdle p).follow? ho ho' ms
    refine ⟨hsame, fun hu => ?_⟩
    obtain ⟨ρ, hrel⟩ := hruns hu
    cases ht : s.follow? ms <;> cases ht' : (s.withoutIdle p).follow? ms <;>
      rw [ht, ht'] at hrel <;> cases hrel
    · exact .none
    · next hend => exact .some (hend.1.indistinct hend.2.1 hend.2.2)

/-! A holder is released and the next item of its pool is laid out. -/

namespace NextItem

def upToRelease : List Moment :=
  told (.component "c" "c" .byName) ++ told (.item "d" (.component "c") []) ++
    told (.engine "e" .standard {}) ++ told (.acquire "d" [] none "shared" (some "h")) ++
    [.give mainThread (.onHolder "h" .release)] ++ List.replicate 3 (.carry mainThread)

def released : Session :=
  ((ofProgram { steps := [], scripts := [] }).follow? upToRelease).get (by decide)

def layoutOfNext : List Moment :=
  told (.acquire "d" [] none "shared" (some "k")) ++
    [.give mainThread (.layout default "e" "" "k" false)] ++ List.replicate 10 (.carry mainThread)

theorem next_as_new :
    (released.store.takeHolder 0).2 = (0, true) ∧
      ((released.withoutIdle 0).store.takeHolder 0).2 = (1, false) ∧
      (released.follow? layoutOfNext).isSome ∧
      Option.Rel Indistinct (released.follow? layoutOfNext)
        ((released.withoutIdle 0).follow? layoutOfNext) := by
  have ho : released.Orderly := ⟨_, upToRelease, by decide, (Option.some_get _).symm⟩
  obtain ⟨-, hreused, hnew, hruns⟩ := ho.recycled_as_new 0
  exact ⟨hreused 0 rfl, hnew, by decide, (hruns layoutOfNext).2 (by decide)⟩

end NextItem

end Session

end Recycler

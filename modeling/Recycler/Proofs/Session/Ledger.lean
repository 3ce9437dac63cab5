import Recycler.Proofs.Session.Resolve
import Recycler.Proofs.Store.Stack

/-!
# What a pool did in a run

From the moment when a pool is made, its counters tell how often it was asked for a holder and how
many releases there were, and an item gets the holder that was put there last and not taken or
cleared since (`ledger_of_run`). A release counts once it begins (`Store.released`) and reaches the
pool with its last step (`Store.handedIn`); between the two there is nothing but that step.
-/

namespace Recycler

/-- Unbinding a key takes its entry away and no other. -/
theorem Keyed.countP_erase {κ α : Type} [DecidableEq κ] {m : Keyed κ α} {k : κ} {a : α}
    (hk : m.get? k = some a) {q : κ × α → Bool} (hq : q (k, a)) :
    (m.erase k).entries.countP q + 1 = m.entries.countP q := by
  obtain ⟨entries, distinct⟩ := m
  simp only [erase, get?] at hk ⊢
  induction entries with
  | nil => cases hk
  | cons e es ih =>
      rw [List.map_cons, List.nodup_cons] at distinct
      rw [find_cons] at hk
      by_cases he : e.1 = k
      · rw [if_pos he] at hk
        obtain rfl : e = (k, a) := Prod.ext he (Option.some.inj hk)
        have hrest : es.filter (·.1 ≠ k) = es := by
          refine List.filter_eq_self.2 fun e he => decide_eq_true fun hek => distinct.1 ?_
          exact List.mem_map.2 ⟨e, he, hek⟩
        rw [List.filter_cons_of_neg (by simp), hrest, List.countP_cons, if_pos hq]
      · rw [if_neg he] at hk
        rw [List.filter_cons_of_pos (by simpa using he), List.countP_cons, List.countP_cons,
          ← ih distinct.2 hk]
        omega

namespace Session

open Store (Act total acquired released handedIn removed moves waiting)

variable {program : Program} {o s s' : Session} {i j p h : Nat} {f : Frame} {m : Moment}
  {ms ns : List Moment} {pool pool' : Pool}

/-- The books of a pool after a run from `o`, where the pool had just been made with a capacity, to
`s`. -/
structure Ledger (o : Session) (p : Nat) (limit : UInt64) (ns : List Moment) (s : Session)
    (pool : Pool) : Prop where
  capacity : pool.capacity = limit
  bounded : pool.idle.length ≤ limit.toNat
  idle : pool.idle.reverse = waiting (moves p o.store (o.runActs ns))
  acquired : pool.stats.hits + pool.stats.misses = total (acquired p) o.store (o.runActs ns)
  released : s.isReleasing = false →
    pool.stats.recycled + pool.stats.dropped = total (released p) o.store (o.runActs ns)
  recycled : pool.stats.recycled =
    pool.stats.hits + pool.idle.length + total (removed p) o.store (o.runActs ns)
  /-- An item gets the holder that was put into the pool last among those that wait there. A new
  one is allocated only if none does. -/
  acquire : ∀ i it policy factory s', .acquire p it policy factory ∈ s.momentActs (.carry i) →
    s.next? (.carry i) = some s' →
      ∃ item settings name into,
        s.top? i = some (.command (.acquire item settings factory name into)) ∧
        (∀ r, into = some r → s'.registers.handles = s.registers.handles.put r
          ((waiting (moves p o.store (o.runActs ns))).getLast?.getD s.store.holders.length)) ∧
        s'.store.holders.length = s.store.holders.length +
          if waiting (moves p o.store (o.runActs ns)) = [] then 1 else 0
  /-- A release through the last reference puts the holder into the pool if there is room. Any other
  release only adds to the dropped ones. -/
  release : ∀ i name h s', s.top? i = some (.command (.onHolder name .release)) →
    s.registers.handles.get? name = some h → s.store.isHome p h →
    s.follow? [.carry i, .carry i] = some s' →
      ∃ pool', s'.store.pool? p = some pool' ∧
        if s.references h = 1 ∧ pool.idle.length < limit.toNat then
          pool'.stats.recycled = pool.stats.recycled + 1 ∧
            pool'.stats.dropped = pool.stats.dropped
        else pool'.stats.recycled = pool.stats.recycled ∧
          pool'.stats.dropped = pool.stats.dropped + 1

/-! ## Releases that were begun -/

theorem exists_shown_view? (s : Session) (h : Nat) :
    ∃ shown, (s.view? h).1 = { s with shown := shown } := by
  unfold view? showHolder
  split
  · exact ⟨s.shown, rfl⟩
  · cases s.shown.idxOf? h <;> exact ⟨_, rfl⟩

theorem Uninterrupted.eq_of_top? (hu : s.Uninterrupted i) (hf : s.top? j = some (.giveBack h)) :
    j = i := by
  have hmem := mem_work_of_top? hf rfl
  refine Decidable.byContradiction fun hji => ?_
  refine not_mem_of_not_isReleasing (hu (isReleasing_iff.2 ⟨j, h, hmem⟩)).2 j h ?_
  rwa [work_off s hji]

theorem eq_giveBack_of_isGiveBack (hf : f.isGiveBack) : ∃ h, f = .giveBack h := by
  cases f with
  | giveBack h => exact ⟨h, rfl⟩
  | _ => cases hf

/-- In an unbroken run there is at most one release at a time, and it is on top of its thread. -/
theorem Uninterrupted.next? (hu : s.Uninterrupted i) (hm : s.interrupts m = false)
    (hn : s.next? m = some s') : ∃ k, s'.Uninterrupted k := by
  cases m with
  | give k c =>
      cases happens_of_next? hn with
      | give c hk =>
          refine ⟨k, fun hrel' => ?_⟩
          obtain ⟨j, n, hmem⟩ := isReleasing_iff.1 hrel'
          rcases mem_work_push hmem with hmem | hmem
          · simp at hmem
          · exact absurd hmem (not_mem_of_not_isReleasing hm j n)
  | carry k =>
      refine ⟨k, hu.advance? hn fun hrel => ?_⟩
      obtain ⟨f, hf, -⟩ := turn_of_advance? hn
      obtain ⟨n, rfl⟩ := eq_giveBack_of_isGiveBack (isGiveBack_of_not_interrupts hm hf hrel)
      exact hu.eq_of_top? hf
  | look k =>
      obtain ⟨shown, hshown⟩ := s.exists_shown_view? k
      obtain rfl : (s.view? k).1 = s' := Option.some.inj hn
      rw [hshown]
      exact ⟨i, hu⟩

theorem Orderly.uninterrupted (ho : s.Orderly) : ∃ i, s.Uninterrupted i := by
  obtain ⟨program, ms, hu, hrun⟩ := ho
  refine unbroken_induction (P := fun s => ∃ i, s.Uninterrupted i) (fun s s' m hm hn ⟨i, hu⟩ =>
    hu.next? hm hn) hu hrun ⟨mainThread, fun hrel => ?_⟩
  cases hrel

/-! ## References to a holder that is released -/

theorem references_dismissSince (s before : Session) (h : Nat) :
    (s.dismissSince before).references h = s.references h := by
  refine dismissSince_congr (·.references h) (fun s q => ?_) s before
  unfold dismiss
  split
  · have hretire (t : Thread) : (t.retire q).references h = t.references h := by
      rw [Thread.references, Thread.retire, List.countP_filter]
      refine List.countP_congr fun f _ => ?_
      cases f with
      | serve => simp [Frame.holder?, Frame.call?]
      | _ => simp [Frame.serves]
    simp only [references, write, List.foldr_map, hretire]
  · rfl

/-- The reference that a handle was goes over to the release. -/
theorem references_release (hf : s.top? i = some f) {name : String}
    (hn : s.registers.handles.get? name = some h) :
    ((s.off i).release i name h).references h = (s.off i).references h := by
  have htop : ((s.off i).release i name h).top? i = some (.giveBack h) := top?_push hf _ []
  have herase := Keyed.countP_erase hn (q := fun e => decide (e.2 = h)) (decide_eq_true rfl)
  rw [references_off htop, release, off_push, Frame.holder?, if_pos rfl, references, references]
  dsimp only [modifyStore, modifyRegisters]
  have hsame : (s.off i).registers = s.registers := rfl
  rw [hsame]
  omega

/-- A release leaves its last step on top, and as many references as there were. -/
theorem of_release {name : String} (hf : s.top? i = some (.command (.onHolder name .release)))
    (hn : s.registers.handles.get? name = some h) (hnext : s.next? (.carry i) = some s') :
    s'.top? i = some (.giveBack h) ∧ s'.references h = s.references h ∧
      s'.store = s.store.act (.reset h) := by
  have heq := eq_of_next?_carry hf hnext
  rw [stepFrame_release (s := s.off i) hn i] at heq
  refine ⟨(release_spec hf name h heq.symm).1, ?_, ?_⟩
  · rw [heq, references_dismissSince, references_release hf hn]
    exact (references_off hf h).symm
  · rw [heq, (like_dismissSince _ _).store]
    rfl

/-! ## Releases that begin and releases that end -/

/-- The number of releases of holders of a pool that were begun and are not at their end. -/
structure Pending (s : Session) (p k : Nat) : Prop where
  none : s.isReleasing = false → k = 0
  one : ∀ j h, .giveBack h ∈ s.work j → k = if s.store.isHome p h then 1 else 0

theorem pending_of_not_isReleasing (hrel : s.isReleasing = false) : s.Pending p 0 :=
  ⟨fun _ => rfl, fun j h hmem => absurd hmem (not_mem_of_not_isReleasing hrel j h)⟩

theorem holder_off {name : String} (hh : s.registers.handles.get? name = some h) (i : Nat) :
    (s.off i).holder name = .ok h := by
  rw [holder, show (s.off i).registers.handles.get? name = some h from hh]
  rfl

/-- When a release comes to its end in an unbroken run there is no other. -/
theorem not_isReleasing_of_giveBack (ho : s.Orderly) (hf : s.top? i = some (.giveBack h))
    (ht : Turn (s.off i) i (.giveBack h) s') : s'.isReleasing = false := by
  obtain ⟨k, hu⟩ := ho.uninterrupted
  obtain rfl := hu.eq_of_top? hf
  have hnone := not_mem_of_not_isReleasing (hu (isReleasing_iff.2
    ⟨i, h, mem_work_of_top? hf rfl⟩)).2
  refine not_isReleasing fun j n hmem => ?_
  rcases ht.mem_work hmem with hmem | hmem | ⟨-, fs, hfs, hmem, -⟩
  · exact hnone j n hmem
  · cases hmem
  · obtain ⟨name, -, hf⟩ := of_giveBack_ensues hfs hmem
    cases hf

/-- A release that begins while there is no other is pending. -/
theorem pending_of_release {name : String} (ho : s.Orderly) (hnot : s.isReleasing = false)
    (hh : s.registers.handles.get? name = some h)
    (hf : s.top? i = some (.command (.onHolder name .release)))
    (ht : Turn (s.off i) i (.command (.onHolder name .release)) s')
    (hn : s.next? (.carry i) = some s') : s'.Pending p (if s.store.isHome p h then 1 else 0) := by
  obtain ⟨htop, -, hstore⟩ := of_release hf hh hn
  refine ⟨fun hs' => ?_, fun j h' hmem => ?_⟩
  · exact absurd (mem_work_of_top? htop rfl) (not_mem_of_not_isReleasing hs' i h)
  · obtain rfl : h' = h := by
      rcases ht.mem_work hmem with hmem | hmem | ⟨-, fs, hfs, hmem, -⟩
      · exact absurd ((work_off_suffix hf j).subset hmem) (not_mem_of_not_isReleasing hnot j h')
      · cases hmem
      · obtain ⟨name', hh', hf'⟩ := of_giveBack_ensues hfs hmem
        cases hf'
        exact Option.some.inj (hh'.symm.trans hh)
    rw [hstore, s.store.isHome_act _ (ho.reachable.sound.handles h' ⟨name, hh⟩)]

/-- Only a command begins a release. -/
theorem not_isReleasing_of_turn {f : Frame} (hnot : s.isReleasing = false) (hf : s.top? i = some f)
    (ht : Turn (s.off i) i f s') (hother : ∀ name h, s.registers.handles.get? name = some h →
      f ≠ .command (.onHolder name .release)) : s'.isReleasing = false := by
  refine not_isReleasing fun j h hmem => ?_
  rcases ht.mem_work hmem with hmem | hmem | ⟨-, fs, hfs, hmem, -⟩
  · exact not_mem_of_not_isReleasing hnot j h ((work_off_suffix hf j).subset hmem)
  · cases hmem
  · obtain ⟨name, hh, hcommand⟩ := of_giveBack_ensues hfs hmem
    exact hother name h hh hcommand

theorem total_released_eq_zero {f : Frame} (hother : ∀ name h,
    s.registers.handles.get? name = some h → f ≠ .command (.onHolder name .release)) :
    total (released p) s.store ((s.off i).frameActs i f) = 0 := by
  refine Store.total_eq_zero _ fun a ha t => ?_
  cases a with
  | reset h =>
      obtain ⟨name, hh, hcommand⟩ := licensed ha
      exact absurd hcommand (hother name h hh)
  | _ => rfl

theorem total_handedIn_eq_zero {f : Frame} (hgive : f.isGiveBack = false) :
    total (handedIn p) s.store ((s.off i).frameActs i f) = 0 := by
  refine Store.total_eq_zero _ fun a ha t => ?_
  cases a with
  | giveBack h referred =>
      rw [(licensed ha).1] at hgive
      cases hgive
  | _ => rfl

/-- In each moment, releases that begin are added to the pending ones, and those that end are taken
away. -/
theorem Pending.next? {k : Nat} (hk : s.Pending p k) (ho : s.Orderly)
    (hm : s.interrupts m = false) (hn : s.next? m = some s') : ∃ k', s'.Pending p k' ∧
      k + total (released p) s.store (s.momentActs m) =
        k' + total (handedIn p) s.store (s.momentActs m) := by
  cases happens_of_next? hn with
  | give c hi =>
      refine ⟨0, pending_of_not_isReleasing (not_isReleasing fun j n hmem => ?_), ?_⟩
      · rcases mem_work_push hmem with hmem | hmem
        · simp at hmem
        · exact not_mem_of_not_isReleasing hm j n hmem
      · rw [hk.none hm]
        rfl
  | look n =>
      obtain ⟨shown, hshown⟩ := s.exists_shown_view? n
      rw [hshown]
      exact ⟨k, ⟨hk.none, hk.one⟩, rfl⟩
  | @carry i f _ hf ht =>
      rw [momentActs_carry hf]
      cases hgive : f.isGiveBack with
      | true =>
          obtain ⟨h, rfl⟩ := eq_giveBack_of_isGiveBack hgive
          refine ⟨0, pending_of_not_isReleasing (not_isReleasing_of_giveBack ho hf ht), ?_⟩
          rw [frameActs_giveBack, hk.one i h (mem_work_of_top? hf rfl)]
          simp [total, released, handedIn]
      | false =>
          have hnot : s.isReleasing = false := by
            rw [Bool.eq_false_iff]
            intro hrel
            rw [isGiveBack_of_not_interrupts hm hf hrel] at hgive
            cases hgive
          rw [hk.none hnot]
          by_cases hrelease : ∃ name h, s.registers.handles.get? name = some h ∧
              f = .command (.onHolder name .release)
          · obtain ⟨name, h, hh, rfl⟩ := hrelease
            refine ⟨_, pending_of_release ho hnot hh hf ht hn, ?_⟩
            rw [frameActs_command, commandActs_onHolder (holder_off hh i), holderActs]
            simp [total, released, handedIn]
          · have hother (name : String) (h : Nat) (hh : s.registers.handles.get? name = some h) :
                f ≠ .command (.onHolder name .release) :=
              fun hcommand => hrelease ⟨name, h, hh, hcommand⟩
            refine ⟨0, pending_of_not_isReleasing (not_isReleasing_of_turn hnot hf ht hother), ?_⟩
            rw [total_released_eq_zero hother, total_handedIn_eq_zero hgive]

/-- Releases that were begun came to their end, but for one that is pending. -/
theorem pending_of_run (ho : o.Orderly) (hrel : o.isReleasing = false)
    (hrun : o.follow? ns = some s) (hu : o.unbroken ns) : ∃ k, s.Pending p k ∧
      total (released p) o.store (o.runActs ns) =
        k + total (handedIn p) o.store (o.runActs ns) := by
  refine follow?_history_induction (P := fun ns s => o.unbroken ns → ∃ k, s.Pending p k ∧
    total (released p) o.store (o.runActs ns) = k + total (handedIn p) o.store (o.runActs ns))
    (fun _ => ⟨0, pending_of_not_isReleasing hrel, rfl⟩) ?_ hrun hu
  intro ns s m s' hs hn ih hu
  obtain ⟨hu, hm⟩ := (unbroken_concat hs hn).1 hu
  obtain ⟨k, hk, htotal⟩ := ih hu
  obtain ⟨k', hk', hmoment⟩ := hk.next? (ho.follow? hu hs) hm hn
  refine ⟨k', hk', ?_⟩
  rw [runActs_concat hs hn, Store.total_append, Store.total_append, ← store_follow? hs]
  omega

/-! ## Idle holders -/

/-- A holder is given back in a moment of its own. -/
theorem momentActs_of_giveBack {referred : Bool} (ha : .giveBack h referred ∈ s.momentActs m) :
    s.momentActs m = [.giveBack h referred] := by
  obtain ⟨i, f, rfl, hf⟩ := exists_of_mem_momentActs ha
  rw [momentActs_carry hf] at ha ⊢
  obtain ⟨rfl, rfl⟩ := licensed ha
  rfl

/-- The idle holders of a pool are those that wait there. -/
theorem reverse_idle_of_run (ho : o.Orderly) (hnew : o.store.pool? p = some pool)
    (hidle : pool.idle = []) (hrun : o.follow? ns = some s) (hu : o.unbroken ns)
    (hp : s.store.pool? p = some pool') :
    pool'.idle.reverse = waiting (moves p o.store (o.runActs ns)) := by
  refine follow?_history_induction (P := fun ns s => o.unbroken ns →
    ∀ pool', s.store.pool? p = some pool' →
      pool'.idle.reverse = waiting (moves p o.store (o.runActs ns))) ?_ ?_ hrun hu pool' hp
  · intro _ pool' hp
    obtain rfl := Option.some.inj (hnew.symm.trans hp)
    rw [hidle]
    rfl
  · intro ns s m s' hs hn ih hu pool' hp'
    obtain ⟨hu, -⟩ := (unbroken_concat hs hn).1 hu
    rw [store_next? hn] at hp'
    obtain ⟨between, hbetween⟩ := o.store.exists_pool?_of_acts hnew (store_follow? hs ▸ hp')
    rw [← store_follow? hs] at hbetween
    rw [runActs_concat hs hn, Store.moves_append, ← store_follow? hs]
    have hnodup := (ho.follow? hu hs).rested.nodup p between hbetween
    exact s.store.reverse_idle_acts hbetween hnodup (ih hu between hbetween)
      (fun _ _ => momentActs_of_giveBack) hp'

/-! ## Items and releases -/

theorem handles_of_acquire {item pool : String} {settings : List (Policy.Setting String)}
    {factory : Option Factory} {r : String} (hp : s.pool pool = .ok p)
    (h : s.acquire i item settings factory pool (some r) = .ok s') :
    s'.registers.handles = s.registers.handles.put r (s.store.takeHolder p).2.1 := by
  obtain ⟨it, -, h⟩ := ok_of_bind h
  obtain ⟨policy, -, h⟩ := ok_of_bind h
  obtain ⟨⟨s₁, q⟩, huse, h⟩ := ok_of_bind h
  obtain ⟨hq, rfl⟩ := of_usePool huse
  obtain rfl : p = q := Except.ok.inj (hp.symm.trans hq)
  obtain rfl := Except.ok.inj h
  exact congrArg (·.put r (s.store.takeHolder p).2.1) (like_answerHolder _ _ _).handles

theorem exists_acquire {item pool : String} {settings : List (Policy.Setting String)}
    {it : Shared Descriptor} {policy : Policy} (hitem : s.item item = .ok it)
    (hpolicy : s.policy settings = .ok policy) (hp : s.pool pool = .ok p)
    (factory : Option Factory) (i : Nat) (into : Target) :
    ∃ s', s.acquire i item settings factory pool into = .ok s' := by
  unfold acquire usePool
  rw [hitem, hpolicy, hp]
  exact ⟨_, rfl⟩

/-- An item that names a register finds its holder there. -/
theorem handles_of_next?_acquire {item pool : String} {settings : List (Policy.Setting String)}
    {factory : Option Factory} {r : String}
    {it : Shared Descriptor} {policy : Policy}
    (hf : s.top? i = some (.command (.acquire item settings factory pool (some r))))
    (hitem : (s.off i).item item = .ok it) (hpolicy : (s.off i).policy settings = .ok policy)
    (hp : (s.off i).pool pool = .ok p) (hn : s.next? (.carry i) = some s') :
    s'.registers.handles = s.registers.handles.put r (s.store.takeHolder p).2.1 := by
  obtain ⟨u, hu⟩ := exists_acquire hitem hpolicy hp factory i (some r)
  have hstep :
      (s.off i).stepFrame i (.command (.acquire item settings factory pool (some r))) = u := by
    rw [stepFrame, stepCommand, perform, hu]
  rw [eq_of_next?_carry hf hn, (like_dismissSince _ _).handles, hstep, handles_of_acquire hp hu]
  rfl

/-- The holder that an item gets from a pool is the one that waits there and was put there last,
or else a new one. -/
theorem takeHolder_eq_getLast? {ms : List Store.Move} {t : Store} (hp : t.pool? p = some pool)
    (hms : pool.idle.reverse = waiting ms) :
    (t.takeHolder p).2.1 = (waiting ms).getLast?.getD t.holders.length ∧
      (t.offered? p = none ↔ waiting ms = []) := by
  have hoffered := t.offered?_eq_head? hp
  rw [← hms, List.getLast?_reverse, ← hoffered]
  constructor
  · exact t.fst_snd_takeHolder p
  · rw [hoffered, List.head?_eq_none_iff, List.reverse_eq_nil_iff]

/-- A release adds to one counter of the pool. -/
theorem pool?_release {name : String} (ho : s.Orderly)
    (hf : s.top? i = some (.command (.onHolder name .release)))
    (hh : s.registers.handles.get? name = some h) (hhome : s.store.isHome p h)
    (hp : s.store.pool? p = some pool) (hrun : s.follow? [.carry i, .carry i] = some s') :
    s'.store.pool? p = some (if s.references h = 1 then pool.offer h else pool.drop) := by
  obtain ⟨t, ht, hrun⟩ := follow?_cons_eq_some.1 hrun
  obtain ⟨u, hu, hrun⟩ := follow?_cons_eq_some.1 hrun
  obtain rfl := Option.some.inj hrun
  obtain ⟨htop, hrefs, hstore⟩ := of_release hf hh ht
  have hpool : t.store.pool? p = some pool := hstore ▸ s.store.pool?_act (.reset h) hp
  have hhome' : t.store.isHome p h := by
    rwa [hstore, s.store.isHome_act _ (ho.reachable.sound.handles h ⟨name, hh⟩)]
  have hidle (q : Nat) : ¬ (t.off i).store.Idles q h := by
    obtain ⟨f, hf', hturn⟩ := turn_of_advance? ht
    obtain rfl := Option.some.inj (hf.symm.trans hf')
    exact (Spent.of_release (ho.rested.off hf) (ho.reachable.sound.off hf) hh hturn).absent q
  have href : (t.off i).references h + 1 = s.references h := by
    rw [← hrefs, references_off htop, Frame.holder?, if_pos rfl]
  rw [store_next? hu, momentActs_carry htop, frameActs_giveBack, Store.acts_cons, Store.acts_nil]
  refine (t.store.pool?_act _ hpool).trans ?_
  rw [isAlive_of_not_idles hidle]
  simp only [Act.drops, Act.onPool, hhome', if_true, Bool.false_eq_true, if_false,
    decide_eq_true_eq]
  by_cases hone : s.references h = 1
  · rw [if_pos hone, if_neg (by omega)]
  · rw [if_neg hone, if_pos (by omega)]

/-- The books of every pool, from the moment when it is made, in every unbroken run. -/
theorem ledger_of_run {before : List Moment} {limit : UInt64}
    (hbefore : (ofProgram program).follow? before = some o) (hrel : o.isReleasing = false)
    (hnew : o.store.pool? p = some { capacity := limit }) (hrun : o.follow? ns = some s)
    (hu : (ofProgram program).unbroken (before ++ ns)) (hp : s.store.pool? p = some pool) :
    Ledger o p limit ns s pool := by
  obtain ⟨hbu, hu⟩ := (unbroken_append hbefore).1 hu
  have ho : o.Orderly := ⟨program, before, hbu, hbefore⟩
  have hs : s.Orderly := ho.follow? hu hrun
  have hend : (o.store.acts (o.runActs ns)).pool? p = some pool := store_follow? hrun ▸ hp
  have hcounts := o.store.counts_acts hnew hend
  have horder := reverse_idle_of_run ho hnew rfl hrun hu hp
  obtain ⟨k, hk, hreleased⟩ := pending_of_run (p := p) ho hrel hrun hu
  have hcapacity : pool.capacity = limit := hcounts.capacity
  refine ⟨hcapacity, ?_, horder, ?_, fun hnot => ?_, ?_, ?_, ?_⟩
  · exact hcapacity ▸ hcounts.bounded (Nat.zero_le _)
  · exact hcounts.acquired.trans (Nat.zero_add _)
  · rw [hreleased, hk.none hnot]
    exact hcounts.handedIn
  · have hbalance := hcounts.balance
    dsimp only [List.length_nil] at hbalance
    omega
  · intro i it policy factory s' ha hn
    obtain ⟨j, f, hij, hf⟩ := exists_of_mem_momentActs ha
    cases hij
    rw [momentActs_carry hf] at ha
    obtain ⟨-, item, settings, name, into, rfl, hitem, hpolicy, hpool⟩ := licensed ha
    obtain ⟨htaken, hnone⟩ := takeHolder_eq_getLast? hp horder
    refine ⟨item, settings, name, into, hf, ?_, ?_⟩
    · rintro r rfl
      rw [handles_of_next?_acquire hf hitem hpolicy hpool hn, htaken]
    · rw [store_next? hn, momentActs_carry hf, frameActs_eq_of_acquire ha, Store.acts_cons,
        Store.acts_nil, Store.length_acquire]
      refine congrArg (s.store.holders.length + ·) ?_
      cases hoffered : s.store.offered? p with
      | none => rw [if_pos (hnone.1 hoffered), Option.isSome_none, if_neg Bool.false_ne_true]
      | some h =>
          rw [Option.isSome_some, if_pos rfl, if_neg fun hw => ?_]
          rw [hnone.2 hw] at hoffered
          cases hoffered
  · intro i name h s' hf hh hhome hrun'
    refine ⟨_, pool?_release hs hf hh hhome hp hrun', ?_⟩
    rw [← hcapacity]
    by_cases hone : s.references h = 1
    · rw [if_pos hone, Pool.offer]
      by_cases hroom : pool.idle.length < pool.capacity.toNat
      · rw [if_pos hroom, if_pos ⟨hone, hroom⟩]
        exact ⟨rfl, rfl⟩
      · rw [if_neg hroom, if_neg fun h => hroom h.2]
        exact ⟨rfl, rfl⟩
    · rw [if_neg hone, if_neg fun h => hone h.1]
      exact ⟨rfl, rfl⟩

theorem exists_makePool (s : Session) (i : Nat) (into : String) {limit : UInt64}
    (hnew : Pool.new? limit = some pool) :
    ∃ u : Session, s.makePool i into limit =
      ((u.modifyStore (·.act (.addPool pool))).modifyRegisters fun r =>
        { r with pools := r.pools.put into u.store.pools.length }).answer i
          (.text pool.policyText) := by
  rw [makePool, hnew]
  exact ⟨_, rfl⟩

/-- A command that makes a pool leaves one with nothing in its books. -/
theorem new_pool {into : String} {limit : UInt64}
    (hf : s.top? i = some (.command (.pool into limit))) (hlimit : limit.toNat < Pool.capacityLimit)
    (hm : s.interrupts (.carry i) = false) (hn : s.next? (.carry i) = some s') :
    ∃ p, s'.registers.pools.get? into = some p ∧
      s'.store.pool? p = some { capacity := limit } ∧ s'.isReleasing = false := by
  have hpools (u : Session) : (u.dismissSince s).registers.pools = u.registers.pools :=
    congrArg (·.pools) (registers_dismissSince u s)
  have heq := eq_of_next?_carry hf hn
  rw [stepFrame, stepCommand, perform] at heq
  have hmade : Pool.new? limit = some { capacity := limit } := if_pos hlimit
  obtain ⟨u, hu⟩ := (s.off i).exists_makePool i into hmade
  dsimp only [pure, Except.pure] at heq
  rw [hu] at heq
  refine ⟨u.store.pools.length, ?_, ?_, ?_⟩
  · rw [heq, hpools]
    exact (Keyed.get?_put _ _ _ _).trans (if_pos rfl)
  · rw [heq, (like_dismissSince _ _).store]
    exact (u.store.pool?_addPool _ _).trans (if_pos rfl)
  · cases happens_of_next? hn with
    | carry hf' ht =>
        obtain rfl := Option.some.inj (hf.symm.trans hf')
        refine not_isReleasing fun j h hmem => ?_
        rcases ht.mem_work hmem with hmem | hmem | ⟨-, fs, hfs, hmem, -⟩
        · have hs := isReleasing_iff.2 ⟨j, h, (work_off_suffix hf j).subset hmem⟩
          cases isGiveBack_of_not_interrupts hm hf hs
        · cases hmem
        · obtain ⟨name, -, hf⟩ := of_giveBack_ensues hfs hmem
          cases hf

/-! ### A pool for one holder

Two items get a new holder each. The pool keeps the one that is released first, and the next item
gets it.
-/

namespace OnePlace

def start : Session := ofProgram { steps := [], scripts := [] }

def making : List Moment :=
  told (.component "c" "c" .byName) ++ told (.item "d" (.component "c") []) ++ told (.pool "p" 1)

def acquiring (r : String) : Moment := .give mainThread (.acquire "d" [] none "p" (some r))

def releasing (r : String) : List Moment :=
  .give mainThread (.onHolder r .release) :: List.replicate 3 (.carry mainThread)

def inUse : List Moment :=
  acquiring "h" :: List.replicate 2 (.carry mainThread) ++
    acquiring "k" :: List.replicate 2 (.carry mainThread) ++
    releasing "h" ++ releasing "k" ++ [acquiring "l"]

def made : Session := (start.follow? making).get (by decide)

def used : Session := (made.follow? inUse).get (by decide)

theorem first_again : ∃ s', used.next? (.carry mainThread) = some s' ∧
    s'.registers.handles.get? "l" = some 0 ∧ s'.store.holders.length = 2 := by
  obtain ⟨s', hn⟩ := Option.isSome_iff_exists.1
    (show (used.next? (.carry mainThread)).isSome by decide)
  have hledger : Ledger made 1 1 inUse used ⟨1, [0], ⟨0, 2, 1, 1⟩⟩ :=
    ledger_of_run (Option.some_get _).symm rfl (by decide) (Option.some_get _).symm (by decide)
      (by decide)
  obtain ⟨item, settings, name, into, hf, hhandles, hlength⟩ :=
    hledger.acquire mainThread _ _ _ s' List.mem_cons_self hn
  cases hf
  have hwaiting : waiting (moves 1 made.store (made.runActs inUse)) = [0] := by decide
  rw [hwaiting] at hhandles hlength
  refine ⟨s', hn, ?_, hlength⟩
  rw [hhandles "l" rfl, Keyed.get?_put, if_pos rfl]
  rfl

end OnePlace

end Session

end Recycler

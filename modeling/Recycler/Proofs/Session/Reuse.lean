import Recycler.Proofs.Session.Settle
import Recycler.Proofs.Store.History
import Recycler.Proofs.Twin.Reference

/-!
# Holders between two items

In unbroken runs a pool keeps holders that nobody refers to, each of them once, and only those that
were allocated for its own items (`reuse_of_run`). A holder gets into a pool by a release after
which nobody refers to it any more; until an item acquires it, it does so at most once.
-/

namespace Recycler

/-! ## Where a holder comes from -/

namespace Store

/-- All idle holders, pool by pool. -/
def idle (s : Store) : List Nat := s.pools.flatMap fun pool => (pool.map (·.idle)).getD []

/-- The pool that allocates a holder when an act is carried out. -/
def Act.allocator? (s : Store) (h : Nat) : Act → Option Nat
  | .acquire p .. => if s.offered? p = none ∧ h = s.holders.length then some p else none
  | _ => none

/-- The pool that allocated a holder. -/
def allocator? (h : Nat) (s : Store) : List Act → Option Nat
  | [] => none
  | a :: as => (a.allocator? s h).or (allocator? h (s.act a) as)

variable {s : Store} {p h : Nat} {x y : Holder}

theorem mem_idle_iff : h ∈ s.idle ↔ ∃ p, s.Idles p h := by
  rw [idle, List.mem_flatMap]
  constructor
  · rintro ⟨_ | pool, hpool, hh⟩
    · cases hh
    · obtain ⟨p, hp⟩ := List.getElem?_of_mem hpool
      exact ⟨p, pool, by rw [pool?, hp, Option.join_some], hh⟩
  · rintro ⟨p, pool, hpool, hh⟩
    exact ⟨some pool, List.mem_of_getElem? (Option.join_eq_some_iff.1 hpool), hh⟩

/-- No holder is idle twice if none is idle twice in a pool, or in two pools. -/
theorem nodup_idle (hnodup : ∀ p pool, s.pool? p = some pool → pool.idle.Nodup)
    (halone : ∀ p q h, s.Idles p h → s.Idles q h → p = q) : s.idle.Nodup := by
  rw [idle, List.Nodup, List.pairwise_flatMap]
  constructor
  · rintro (_ | pool) hpool
    · exact List.nodup_nil
    · obtain ⟨p, hp⟩ := List.getElem?_of_mem hpool
      exact hnodup p pool (by rw [pool?, hp, Option.join_some])
  · rw [List.pairwise_iff_getElem]
    rintro i j hi hj hij h hhi _ hhj rfl
    have hidles {k : Nat} (hk : k < s.pools.length)
        (hh : h ∈ (s.pools[k].map (·.idle)).getD []) : s.Idles k h := by
      cases hpool : s.pools[k] with
      | none =>
          rw [hpool] at hh
          cases hh
      | some pool =>
          rw [hpool] at hh
          exact ⟨pool, by rw [pool?, List.getElem?_eq_getElem hk, hpool, Option.join_some], hh⟩
    have hsame := halone i j h (hidles hi hhi) (hidles hj hhj)
    exact absurd hij (Nat.not_lt.2 (Nat.le_of_eq hsame.symm))

theorem home_acts {as : List Act} (hx : s.holders[h]? = some x)
    (hy : (s.acts as).holders[h]? = some y) : y.home = x.home := by
  induction as generalizing s x with
  | nil => rw [Option.some.inj (hx.symm.trans hy)]
  | cons a as ih => rw [ih (s.holders_act a hx) hy, home_onHolder]

/-- A holder that was not there belongs to the pool that allocated it. -/
theorem allocator?_eq_home {as : List Act} (hx : s.holders[h]? = none)
    (hy : (s.acts as).holders[h]? = some y) : allocator? h s as = some y.home := by
  induction as generalizing s with
  | nil =>
      rw [acts_nil, hx] at hy
      cases hy
  | cons a as ih =>
      rw [allocator?]
      cases hx' : (s.act a).holders[h]? with
      | none =>
          have hnone : a.allocator? s h = none := by
            cases a with
            | acquire p item policy factory =>
                refine if_neg fun ⟨hoffered, hh⟩ => ?_
                rw [List.getElem?_eq_none_iff, length_acquire, hoffered, Option.isSome_none,
                  if_neg Bool.false_ne_true] at hx'
                omega
            | _ => rfl
          rw [hnone, Option.none_or, ih hx' hy]
      | some x =>
          obtain ⟨p, item, policy, factory, rfl, hoffered, hh, rfl⟩ := s.of_getElem?_act hx hx'
          rw [Act.allocator?, if_pos ⟨hoffered, hh⟩, Option.some_or, home_acts hx' hy]
          rfl

end Store

namespace Session

open Store (Unoffered allocator?)

variable {s s' t : Session} {i p h : Nat} {f : Frame} {m : Moment} {ms : List Moment}

/-! ## References, one by one -/

/-- The frame on top of a thread accounts for one reference at most, to the holder it is for. -/
theorem references_off (hf : s.top? i = some f) (h : Nat) :
    s.references h = (s.off i).references h + if f.holder? = some h then 1 else 0 := by
  obtain ⟨u, hu, hhead⟩ := Option.bind_eq_some_iff.1 hf
  obtain ⟨rest, hrest⟩ := List.head?_eq_some_iff.1 hhead
  rw [references, references, Nat.add_assoc]
  refine congrArg _ (sum_modify (d := 0) hu ?_).symm
  rw [Thread.references, Thread.references, hrest, List.countP_cons, List.tail_cons]
  simp only [decide_eq_true_eq, Nat.add_zero]

/-- A handle resolves by the store and by how often its holder is referred to. -/
theorem resolve?_congr (hstore : s'.store = s.store)
    (hrefs : ∀ h, s'.references h = s.references h) (w : WeakHandle) :
    s'.resolve? w = s.resolve? w := by
  unfold resolve? isAlive
  rw [hstore, hrefs]

theorem resolve?_off (hf : s.top? i = some f) (hh : f.holder? = none) (w : WeakHandle) :
    (s.off i).resolve? w = s.resolve? w := by
  have hstore : (s.off i).store = s.store := rfl
  have hrefs (h : Nat) : (s.off i).references h = s.references h := by
    rw [references_off hf h, hh, if_neg (by simp), Nat.add_zero]
  exact resolve?_congr hstore hrefs w

/-- A weak handle resolves all the same when a frame makes way for one that is for its holder. -/
theorem resolve?_push {g : Frame} (hf : s.top? i = some f) (hh : g.holder? = f.holder?)
    (w : WeakHandle) : ((s.off i).push i [g]).resolve? w = s.resolve? w := by
  have hstore : ((s.off i).push i [g]).store = s.store := rfl
  have hrefs (h : Nat) : ((s.off i).push i [g]).references h = s.references h := by
    rw [references_off (top?_push hf g []) h, off_push, references_off hf h, hh]
  exact resolve?_congr hstore hrefs w

theorem references_eq_zero (hu : s.Unreferred h) : s.references h = 0 :=
  Nat.eq_zero_of_not_pos fun hpos => refers_iff.1 (references_pos_iff.1 hpos) hu

/-! ## A step -/

theorem acquires_of_unoffered (hu : Unoffered h s.store (s.frameActs i f)) :
    ∀ a ∈ s.frameActs i f, a.acquires s.store h = false := by
  rcases s.acquires_alone i f with ⟨p, item, policy, factory, hone⟩ | hnone
  · rw [hone] at hu ⊢
    intro a ha
    obtain rfl := List.mem_singleton.1 ha
    exact hu.1
  · intro a ha
    exact s.store.acquires_eq_false h fun p item policy factory heq =>
      hnone p item policy factory (heq ▸ ha)

/-- A holder at rest stays so until an item acquires it. -/
theorem AtRest.next? (hr : s.AtRest p h) (hs : s.Sound) (hn : s.next? m = some s')
    (hu : Unoffered h s.store (s.momentActs m)) : s'.AtRest p h := by
  cases happens_of_next? hn with
  | give c hi =>
      refine hr.of_work rfl rfl rfl fun j f hf => ?_
      rcases mem_work_push hf with hf | hf
      · simp only [List.mem_cons, List.not_mem_nil, or_false] at hf
        rcases hf with rfl | rfl <;> exact .inr rfl
      · exact .inl hf
  | @carry i f _ hf ht =>
      have hoff : (s.off i).AtRest p h :=
        hr.of_work rfl rfl rfl fun j g hg => .inl ((work_off_suffix hf j).subset hg)
      have hnot : f.holder? ≠ some h := fun hh =>
        hr.workless i f (mem_work_of_top? hf (f.isServe_of_holder? hh)) hh
      rw [momentActs_carry hf] at hu
      exact hoff.turn (fun hh => absurd hh hnot) (hs.top hf) (acquires_of_unoffered hu) ht
  | look k =>
      have hl := s.like_view? k
      exact hr.of_work hl.store hl.handles hl.weaks fun j f hf => .inl (hl.work j ▸ hf)

/-- A holder gets into a pool by the end of a release, at which nobody else refers to it. -/
theorem of_enters (hn : s.next? m = some s') (hold : h ∉ s.store.idle) (hnew : h ∈ s'.store.idle) :
    ∃ i, m = .carry i ∧ s.top? i = some (.giveBack h) ∧ s.references h = 1 := by
  obtain ⟨q, hq⟩ := Store.mem_idle_iff.1 hnew
  have hnot : ¬ s.store.Idles q h := fun hi => hold (Store.mem_idle_iff.2 ⟨q, hi⟩)
  cases happens_of_next? hn with
  | give c hi => exact absurd hq hnot
  | @carry i f _ hf ht =>
      rw [ht.store] at hq
      rcases Store.idles_acts _ hq with hi | ha | ⟨pool, ha, hh⟩
      · exact absurd hi hnot
      · obtain ⟨rfl, hreferred⟩ := licensed ha
        have hzero : (s.off i).references h = 0 :=
          references_eq_zero (unreferred_of_isAlive hreferred.symm)
        refine ⟨i, rfl, hf, ?_⟩
        rw [references_off hf, hzero, Frame.holder?, if_pos rfl]
      · have hempty : pool.idle = [] := licensed ha
        rw [hempty] at hh
        cases hh
  | look k =>
      rw [(s.like_view? k).store] at hq
      exact absurd hq hnot

theorem isAlive_of_not_idles (hnot : ∀ q, ¬ s.store.Idles q h) :
    s.isAlive h = decide (0 < s.references h) := by
  rw [isAlive, Bool.eq_false_iff.2 fun hi => (idles_of_isIdle hi).elim hnot, Bool.or_false]

/-- At the end of a release the pool keeps the holder if nobody else refers to it and there is
room. -/
theorem Orderly.idle_giveBack_iff (ho : s.Orderly) (hf : s.top? i = some (.giveBack h))
    {x : Holder} (hx : s.store.holders[h]? = some x) (hn : s.next? (.carry i) = some s') :
    h ∈ s'.store.idle ↔ s.references h = 1 ∧ ∃ pool, s.store.pool? x.home = some pool ∧
      pool.idle.length < pool.capacity.toNat := by
  have hnot (q : Nat) : ¬ s.store.Idles q h :=
    fun hi => (ho.rested.idle q h hi).workless i _ (mem_work_of_top? hf rfl) rfl
  have href : s.references h = (s.off i).references h + 1 :=
    (references_off hf h).trans (congrArg _ (if_pos rfl))
  have hpool (q : Nat) : s'.store.pool? q = if x.home = q then (s.store.pool? q).map
      (if (0 < (s.off i).references h : Bool) then Pool.drop else (·.offer h))
      else s.store.pool? q := by
    rw [store_next? hn, momentActs_carry hf, frameActs_giveBack, Store.acts_cons, Store.acts_nil,
      Store.act, Store.pool?_giveBack, hx, isAlive_of_not_idles (s := s.off i) hnot]
  constructor
  · intro hnew
    obtain ⟨-, -, -, hone⟩ := of_enters hn (fun hold => (Store.mem_idle_iff.1 hold).elim
      fun q hi => hnot q hi) hnew
    refine ⟨hone, ?_⟩
    obtain ⟨q, pool', hpool', hmem⟩ := Store.mem_idle_iff.1 hnew
    rw [hpool] at hpool'
    split at hpool'
    · next hq =>
        subst hq
        obtain ⟨pool, hp, rfl⟩ := Option.map_eq_some_iff.1 hpool'
        refine ⟨pool, hp, ?_⟩
        rw [decide_eq_false (by omega), if_neg Bool.false_ne_true, Store.idle_offer] at hmem
        split at hmem
        · next hroom => exact hroom
        · exact absurd ⟨pool, hp, hmem⟩ (hnot _)
    · exact absurd ⟨pool', hpool', hmem⟩ (hnot _)
  · rintro ⟨hone, pool, hp, hroom⟩
    refine Store.mem_idle_iff.2 ⟨x.home, pool.offer h, ?_, ?_⟩
    · rw [hpool, if_pos rfl, hp, decide_eq_false (by omega)]
      rfl
    · rw [Store.idle_offer, if_pos hroom]
      exact List.mem_cons_self

/-! ## Runs -/

/-- How often a holder gets into a pool during a run. -/
def entries (s : Session) (h : Nat) : List Moment → Nat
  | [] => 0
  | m :: ms =>
    match s.next? m with
    | some s' => (if h ∉ s.store.idle ∧ h ∈ s'.store.idle then 1 else 0) + s'.entries h ms
    | none => 0

theorem entries_cons (h : Nat) (hn : s.next? m = some s') (ms : List Moment) :
    s.entries h (m :: ms) =
      (if h ∉ s.store.idle ∧ h ∈ s'.store.idle then 1 else 0) + s'.entries h ms := by
  rw [entries, hn]

theorem unoffered_of_cons (hn : s.next? m = some s')
    (hu : Unoffered h s.store (s.runActs (m :: ms))) :
    Unoffered h s.store (s.momentActs m) ∧ Unoffered h s'.store (s'.runActs ms) := by
  rw [runActs_cons hn, Store.unoffered_append, ← store_next? hn] at hu
  exact hu

theorem AtRest.entries_eq_zero (hr : s.AtRest p h) (hs : s.Sound) (hrun : s.follow? ms = some t)
    (hu : Unoffered h s.store (s.runActs ms)) : s.entries h ms = 0 := by
  induction ms generalizing s with
  | nil => rfl
  | cons m ms ih =>
      obtain ⟨s', hn, hrun⟩ := follow?_cons_eq_some.1 hrun
      obtain ⟨hfirst, hlater⟩ := unoffered_of_cons hn hu
      have hnot : ¬ (h ∉ s.store.idle ∧ h ∈ s'.store.idle) := by
        rintro ⟨hold, hnew⟩
        obtain ⟨-, -, -, hone⟩ := of_enters hn hold hnew
        rw [references_eq_zero hr.toUnreferred] at hone
        cases hone
      rw [entries_cons h hn, if_neg hnot,
        ih (hr.next? hs hn hfirst) (hs.next? hn) hrun hlater]

/-- Until an item acquires it, a holder is idle from the start or gets into a pool once, or
neither. -/
theorem Orderly.count_idle_add_entries_le (ho : s.Orderly) (hu : s.unbroken ms)
    (hrun : s.follow? ms = some t) (hun : Unoffered h s.store (s.runActs ms)) :
    (if h ∈ s.store.idle then 1 else 0) + s.entries h ms ≤ 1 := by
  induction ms generalizing s with
  | nil =>
      rw [entries]
      split <;> omega
  | cons m ms ih =>
      by_cases hi : h ∈ s.store.idle
      · obtain ⟨p, hp⟩ := Store.mem_idle_iff.1 hi
        have hrest := ho.rested.idle p h hp
        exact Nat.le_of_eq
          (by rw [if_pos hi, hrest.entries_eq_zero ho.reachable.sound hrun hun])
      · obtain ⟨s', hn, hrun⟩ := follow?_cons_eq_some.1 hrun
        obtain ⟨hm, hu⟩ := (unbroken_cons hn).1 hu
        have hle := ih (ho.next? hm hn) hu hrun (unoffered_of_cons hn hun).2
        rw [entries_cons h hn, if_neg hi]
        by_cases hnew : h ∈ s'.store.idle
        · rw [if_pos ⟨hi, hnew⟩]
          rw [if_pos hnew] at hle
          omega
        · rw [if_neg fun hboth => hnew hboth.2]
          rw [if_neg hnew] at hle
          omega

theorem Orderly.nodup_idle (ho : s.Orderly) : s.store.idle.Nodup := by
  refine Store.nodup_idle ho.rested.nodup fun p q h hp hq => ?_
  obtain ⟨g, hg⟩ := (ho.rested.idle p h hp).fresh
  obtain ⟨g', hg'⟩ := (ho.rested.idle q h hq).fresh
  exact congrArg Holder.home (Option.some.inj (hg.symm.trans hg'))

theorem Reachable.unreferred_of_le (hr : s.Reachable) (hh : s.store.holders.length ≤ h) :
    s.Unreferred h := by
  have hs := hr.sound
  refine ⟨fun hheld => ?_, fun j f hf hfh => ?_⟩
  · exact Nat.not_lt.2 hh (hs.handles h hheld)
  · exact Nat.not_lt.2 hh ((hs.frames j f hf).lt hfh)

/-- The holder that an item gets is one that nobody refers to. -/
theorem Orderly.unreferred_takeHolder (ho : s.Orderly) (p : Nat) :
    s.Unreferred (s.store.takeHolder p).2.1 := by
  cases hp : s.store.offered? p with
  | none =>
      rw [s.store.takeHolder_of_not_offered? hp]
      exact ho.reachable.unreferred_of_le (Nat.le_refl _)
  | some h =>
      rw [s.store.takeHolder_of_offered? hp]
      exact (ho.rested.idle p h (.of_offered? _ hp)).toUnreferred

/-- At every point of every unbroken run: no holder is idle twice, and an idle one waits in the pool
that allocated it and is referred to by nobody; so is the holder that an item gets. A holder gets
into a pool only by the end of a release that gives up the last reference to it, and every such
release puts it there if its pool is there still and has room. Until an item acquires it the next
time it gets into a pool once at most, and not at all if it is idle already. -/
theorem reuse_of_run {program : Program} (hrun : (ofProgram program).follow? ms = some s)
    (hu : (ofProgram program).unbroken ms) :
    s.store.idle.Nodup ∧
      (∀ p h, s.store.Idles p h →
        allocator? h {} ((ofProgram program).runActs ms) = some p ∧ s.references h = 0) ∧
      (∀ m p item policy factory, .acquire p item policy factory ∈ s.momentActs m →
        s.references (s.store.takeHolder p).2.1 = 0) ∧
      (∀ m s' h, s.next? m = some s' → h ∉ s.store.idle → h ∈ s'.store.idle →
        ∃ i, m = .carry i ∧ s.top? i = some (.giveBack h) ∧ s.references h = 1 ∧
          s'.references h = 0) ∧
      (∀ i s' h, s.top? i = some (.giveBack h) → s.next? (.carry i) = some s' →
        (h ∈ s'.store.idle ↔ s.references h = 1 ∧ ∃ p pool,
          allocator? h {} ((ofProgram program).runActs ms) = some p ∧
            s.store.pool? p = some pool ∧ pool.idle.length < pool.capacity.toNat)) ∧
      ∀ h ns s', s.follow? ns = some s' → s.unbroken ns → Unoffered h s.store (s.runActs ns) →
        (if h ∈ s.store.idle then 1 else 0) + s.entries h ns ≤ 1 := by
  have ho : s.Orderly := ⟨program, ms, hu, hrun⟩
  have hhome {h : Nat} {x : Holder} (hx : s.store.holders[h]? = some x) :
      allocator? h {} ((ofProgram program).runActs ms) = some x.home := by
    rw [store_follow? hrun] at hx
    exact Store.allocator?_eq_home rfl hx
  refine ⟨ho.nodup_idle, fun p h hi => ?_, fun m p item policy factory _ =>
    references_eq_zero (ho.unreferred_takeHolder p), fun m s' h hn hold hnew => ?_,
    fun i s' h hf hn => ?_, fun h ns s' hns hu hun => ho.count_idle_add_entries_le hu hns hun⟩
  · have hrest := ho.rested.idle p h hi
    obtain ⟨g, hg⟩ := hrest.fresh
    exact ⟨hhome hg, references_eq_zero hrest.toUnreferred⟩
  · obtain ⟨i, rfl, hf, hone⟩ := of_enters hn hold hnew
    have hm : s.interrupts (.carry i) = false := by
      rw [interrupts, hf, Option.any_some, Frame.isGiveBack, Bool.not_true, Bool.and_false]
    obtain ⟨p, hp⟩ := Store.mem_idle_iff.1 hnew
    have hrest := (ho.next? hm hn).rested.idle p h hp
    exact ⟨i, rfl, hf, hone, references_eq_zero hrest.toUnreferred⟩
  · have hspent := ho.rested.releasing i h (mem_work_of_top? hf rfl)
    obtain ⟨p, g, hg⟩ := hspent.fresh
    rw [ho.idle_giveBack_iff hf hg hn, hhome hg]
    simp only [Option.some.injEq, exists_and_left, exists_eq_left']

/-! ### A holder with two handles

The release of one handle leaves the holder to the other, the release of both puts it into the pool.
-/

namespace TwoHandles

def start : Session := ofProgram { steps := [], scripts := [] }

def upToFirst : List Moment :=
  told (.component "c" "c" .byName) ++ told (.item "d" (.component "c") []) ++
    told (.acquire "d" [] none "shared" (some "h")) ++ told (.onHolder "h" (.clone "k")) ++
    [.give mainThread (.onHolder "h" .release)] ++ List.replicate 2 (.carry mainThread)

/-- Up to the end of the second release. -/
def upToSecond : List Moment :=
  upToFirst ++ [.give mainThread (.onHolder "k" .release), .carry mainThread]

def afterFirst : Session := (start.follow? upToFirst).get (by decide)

def atSecond : Session := (start.follow? upToSecond).get (by decide)

theorem kept_after_second : 0 ∉ afterFirst.store.idle ∧
    ∃ s', atSecond.next? (.carry mainThread) = some s' ∧ 0 ∈ s'.store.idle := by
  have hrun : start.follow? upToSecond = some atSecond := (Option.some_get _).symm
  obtain ⟨s', hs'⟩ : ∃ s', atSecond.next? (.carry mainThread) = some s' :=
    Option.isSome_iff_exists.1 (by decide)
  have hkept := (reuse_of_run hrun (by decide)).2.2.2.2.1 mainThread s' 0 rfl hs'
  have hpool : atSecond.store.pool? Store.sharedPool = some ⟨8, [], ⟨0, 1, 0, 1⟩⟩ := by decide
  exact ⟨by decide, s', hs', hkept.2 ⟨by decide, Store.sharedPool, _, by decide, hpool, by decide⟩⟩

end TwoHandles

end Session

end Recycler

import Recycler.Proofs.Store.Handle

/-!
# Idle holders and waiting layouts

What an act does to the holders that are idle in pools and to the layouts that wait in queues.
-/

namespace Recycler.Store

variable (s : Store)

def Idles (p h : Nat) : Prop := ∃ pool, s.pool? p = some pool ∧ h ∈ pool.idle

def Waits (l : Layout) : Prop := ∃ queue ∈ s.queues, l ∈ queue.waiting

/-- Whether the listener of some tree has a handle. -/
def Listens (w : WeakHandle) : Prop :=
  ∃ t x l, s.tree? t = some x ∧ x.config.listener = some l ∧ l.handle = some w

/-- Pools and queues are as before. -/
structure Stocked (s s' : Store) : Prop where
  pools : s'.pools = s.pools
  queues : s'.queues = s.queues

/-! ## Pools -/

theorem pool?_congr {s s' : Store} (h : s'.pools = s.pools) (p : Nat) : s'.pool? p = s.pool? p := by
  rw [pool?, pool?, h]

theorem pool?_modifyPool (p q : Nat) (f : Pool → Pool) :
    (s.modifyPool p f).pool? q = if p = q then (s.pool? q).map f else s.pool? q := by
  unfold pool? modifyPool
  rw [List.getElem?_modify]
  cases s.pools[q]? with
  | none => simp
  | some pool => split <;> simp

theorem pool?_dropPool (p q : Nat) :
    (s.dropPool p).pool? q = if p = q then none else s.pool? q := by
  unfold pool? dropPool
  rw [List.getElem?_set]
  split
  · split <;> rfl
  · rfl

theorem pool?_addPool (q : Nat) (pool : Pool) :
    (s.act (.addPool pool)).pool? q = if q = s.pools.length then some pool else s.pool? q := by
  simp only [act, pool?]
  rw [List.getElem?_append]
  by_cases hq : q < s.pools.length
  · simp [hq, Nat.ne_of_lt hq]
  · by_cases heq : q = s.pools.length
    · simp [heq]
    · have hlt : s.pools.length < q := Nat.lt_of_le_of_ne (Nat.not_lt.1 hq) (Ne.symm heq)
      rw [if_neg hq, if_neg heq, List.getElem?_eq_none (Nat.not_lt.1 hq), List.getElem?_eq_none]
      rw [List.length_singleton]
      omega

theorem stocked_evict (h : Nat) : s.Stocked (s.evict h) := by
  unfold evict
  split
  · exact ⟨rfl, rfl⟩
  · split <;> exact ⟨rfl, rfl⟩

theorem stocked_reset (h : Nat) : s.Stocked (s.reset h) := by
  unfold reset
  split <;> exact ⟨rfl, rfl⟩

theorem stocked_setReadyListener (h : Nat) (l : Option ReadyListener) :
    s.Stocked (s.setReadyListener h l) := by
  unfold setReadyListener
  split <;> exact ⟨rfl, rfl⟩

theorem stocked_reportWindow (h : Nat) (position : UInt64) (w : Window) :
    s.Stocked (s.reportWindow h position w) := by
  unfold reportWindow
  split <;> exact ⟨rfl, rfl⟩

theorem stocked_openRequest (call : Call) : s.Stocked (s.openRequest call).1 := by
  rw [fst_openRequest]
  split <;> exact ⟨rfl, rfl⟩

theorem stocked_claimTree (call : Call) (item : Shared Descriptor) (component : Component)
    (handle : WeakHandle) (listener : Option MeasureListener) :
    s.Stocked (s.claimTree call item component handle listener).1 := by
  unfold claimTree
  split
  · split
    · split
      · exact ⟨rfl, rfl⟩
      · split
        · exact ⟨rfl, rfl⟩
        · dsimp only
          split <;> exact ⟨rfl, rfl⟩
    · exact ⟨rfl, rfl⟩
  · exact ⟨rfl, rfl⟩

theorem stocked_enterLayout (t : TreeRef) : s.Stocked (s.enterLayout t).1 := by
  unfold enterLayout
  split
  · split
    · exact ⟨rfl, rfl⟩
    · split
      · exact ⟨rfl, rfl⟩
      · split <;> exact ⟨rfl, rfl⟩
  · exact ⟨rfl, rfl⟩

/-- Whether an act is about a pool or a queue. -/
def Act.stocks : Act → Bool
  | .acquire .. | .giveBack .. | .addPool _ | .clearPool _ | .dropPool _ => true
  | .enqueue .. | .dequeue _ | .addQueue _ => true
  | _ => false

theorem stocked_act {a : Act} (ha : a.stocks = false) : s.Stocked (s.act a) := by
  cases a with
  | evict h => exact s.stocked_evict h
  | reset h => exact s.stocked_reset h
  | setReadyListener h l => exact s.stocked_setReadyListener h l
  | reportWindow h position w => exact s.stocked_reportWindow h position w
  | openRequest call => exact s.stocked_openRequest call
  | claimTree call item component handle listener =>
      exact s.stocked_claimTree call item component handle listener
  | enterLayout t => exact s.stocked_enterLayout t
  | commitLayout r size =>
      rw [act, commitLayout]
      split <;> exact ⟨rfl, rfl⟩
  | confirmLayout r =>
      rw [act, confirmLayout]
      split <;> exact ⟨rfl, rfl⟩
  | writeHeight w height =>
      rw [act, writeHeight]
      split <;> exact ⟨rfl, rfl⟩
  | acquire | giveBack | addPool | clearPool | dropPool | enqueue | dequeue | addQueue => cases ha
  | _ => exact ⟨rfl, rfl⟩

theorem pool?_acquire (p q : Nat) (item : Shared Descriptor) (policy : Policy)
    (factory : Option Factory) :
    (s.act (.acquire p item policy factory)).pool? q =
      if p = q then (s.pool? q).map (·.take.1) else s.pool? q := by
  rw [← pool?_modifyPool]
  apply pool?_congr
  rw [act, configure]
  cases hp : s.offered? p with
  | none => rw [s.takeHolder_of_not_offered? hp]; rfl
  | some h => rw [s.takeHolder_of_offered? hp]; rfl

theorem pool?_giveBack (h q : Nat) (referred : Bool) :
    (s.giveBack h referred).1.pool? q =
      match s.holders[h]? with
      | none => s.pool? q
      | some x =>
        if x.home = q then (s.pool? q).map (if referred then Pool.drop else (·.offer h))
        else s.pool? q := by
  unfold giveBack
  cases hx : s.holders[h]? with
  | none => rfl
  | some x =>
      dsimp only
      split
      · next hp =>
          split
          · next hq => rw [← hq, hp, Option.map_none]
          · rfl
      · cases referred with
        | false => exact s.pool?_modifyPool _ _ _
        | true => exact s.pool?_modifyPool _ _ _

theorem idle_take (pool : Pool) : pool.take.1.idle = pool.idle.tail := by
  unfold Pool.take
  cases pool.idle with
  | nil => rfl
  | cons h idle => rfl

theorem idle_offer (pool : Pool) (h : Nat) :
    (pool.offer h).idle = if pool.idle.length < pool.capacity.toNat then h :: pool.idle
      else pool.idle := by
  unfold Pool.offer Pool.drop
  split <;> rfl

theorem capacity_take (pool : Pool) : pool.take.1.capacity = pool.capacity := by
  unfold Pool.take
  split <;> rfl

theorem capacity_offer (pool : Pool) (h : Nat) : (pool.offer h).capacity = pool.capacity := by
  unfold Pool.offer
  split <;> rfl

/-- Whether an item acquires a holder from a pool. -/
def Act.takesFrom (p : Nat) : Act → Bool
  | .acquire q .. => q = p
  | _ => false

/-- What becomes of the idle holders of a pool. -/
inductive Restocked (s : Store) (p : Nat) (idle : List Nat) : Act → List Nat → Prop
  | kept {a : Act} (ha : a.takesFrom p = false) : Restocked s p idle a idle
  | taken (item : Shared Descriptor) (policy : Policy) (factory : Option Factory) :
      Restocked s p idle (.acquire p item policy factory) idle.tail
  | cleared (a : Act) : Restocked s p idle a []
  | offered {h : Nat} {x : Holder} (hx : s.holders[h]? = some x) (hp : x.home = p) :
      Restocked s p idle (.giveBack h false) (h :: idle)

theorem restocked_act {a : Act} {p : Nat} {pool' : Pool}
    (h : (s.act a).pool? p = some pool') :
    a = .addPool pool' ∨
      ∃ pool, s.pool? p = some pool ∧ Restocked s p pool.idle a pool'.idle := by
  by_cases ha : a.stocks = false
  · refine .inr ⟨pool', (pool?_congr (s.stocked_act ha).pools p).symm.trans h, .kept ?_⟩
    cases a with
    | acquire q item policy factory => cases ha
    | _ => rfl
  · cases a with
    | acquire q item policy factory =>
        right
        rw [pool?_acquire] at h
        split at h
        · next hq =>
            subst hq
            obtain ⟨pool, hpool, rfl⟩ := Option.map_eq_some_iff.1 h
            exact ⟨pool, hpool, idle_take pool ▸ .taken item policy factory⟩
        · next hq => exact ⟨pool', h, .kept (decide_eq_false hq)⟩
    | giveBack k referred =>
        right
        rw [act, pool?_giveBack] at h
        split at h
        · exact ⟨pool', h, .kept rfl⟩
        · next x hx =>
            split at h
            · next hhome =>
                obtain ⟨pool, hpool, rfl⟩ := Option.map_eq_some_iff.1 h
                refine ⟨pool, hpool, ?_⟩
                cases referred with
                | true => exact .kept rfl
                | false =>
                    rw [if_neg Bool.false_ne_true, idle_offer]
                    split
                    · exact .offered hx hhome
                    · exact .kept rfl
            · exact ⟨pool', h, .kept rfl⟩
    | clearPool q =>
        right
        rw [act, pool?_modifyPool] at h
        split at h
        · obtain ⟨pool, hpool, rfl⟩ := Option.map_eq_some_iff.1 h
          exact ⟨pool, hpool, .cleared _⟩
        · exact ⟨pool', h, .kept rfl⟩
    | dropPool q =>
        right
        rw [act, pool?_dropPool] at h
        split at h
        · cases h
        · exact ⟨pool', h, .kept rfl⟩
    | addPool pool =>
        rw [pool?_addPool] at h
        split at h
        · exact .inl (congrArg _ (Option.some.inj h))
        · exact .inr ⟨pool', h, .kept rfl⟩
    | enqueue q l => exact .inr ⟨pool', h, .kept rfl⟩
    | dequeue q =>
        right
        have hpools : (s.act (.dequeue q)).pools = s.pools := by
          rw [act, dequeue]
          split <;> rfl
        exact ⟨pool', (pool?_congr hpools p).symm.trans h, .kept rfl⟩
    | addQueue queue => exact .inr ⟨pool', h, .kept rfl⟩
    | _ => exact absurd rfl ha

theorem offered?_eq_some_iff {p h : Nat} :
    s.offered? p = some h ↔ ∃ pool, s.pool? p = some pool ∧ pool.idle.head? = some h := by
  rw [offered?, Option.bind_eq_some_iff]
  refine exists_congr fun pool => and_congr_right fun _ => ?_
  unfold Pool.take
  cases pool.idle <;> simp

theorem Idles.of_offered? {p h : Nat} (hp : s.offered? p = some h) : s.Idles p h := by
  obtain ⟨pool, hpool, hh⟩ := s.offered?_eq_some_iff.1 hp
  exact ⟨pool, hpool, List.mem_of_head? hh⟩

/-! ## Queues -/

/-- A layout that waits was there before or has just been handed over. -/
theorem waits_act {a : Act} {l : Layout} (h : (s.act a).Waits l) :
    s.Waits l ∨ (∃ q, a = .enqueue q l) ∨ ∃ queue, a = .addQueue queue ∧ l ∈ queue.waiting := by
  obtain ⟨queue', hqueue', hl⟩ := h
  by_cases ha : a.stocks = false
  · rw [(s.stocked_act ha).queues] at hqueue'
    exact .inl ⟨queue', hqueue', hl⟩
  · cases a with
    | enqueue q l' =>
        obtain ⟨k, hk⟩ := List.getElem?_of_mem hqueue'
        simp only [act, enqueue, modifyQueue] at hk
        rw [List.getElem?_modify] at hk
        obtain ⟨queue, hqueue, hk⟩ := Option.map_eq_some_iff.1 hk
        have hmem := List.mem_of_getElem? hqueue
        split at hk
        · subst hk
          rcases List.mem_append.1 hl with hl | hl
          · exact .inl ⟨queue, hmem, hl⟩
          · obtain rfl := List.mem_singleton.1 hl
            exact .inr (.inl ⟨q, rfl⟩)
        · exact .inl ⟨queue, hmem, hk ▸ hl⟩
    | dequeue q =>
        left
        simp only [act, dequeue] at hqueue'
        split at hqueue'
        · next first rest hq =>
            obtain ⟨k, hk⟩ := List.getElem?_of_mem hqueue'
            simp only [modifyQueue] at hk
            rw [List.getElem?_modify] at hk
            obtain ⟨queue, hqueue, hk⟩ := Option.map_eq_some_iff.1 hk
            have hmem := List.mem_of_getElem? hqueue
            split at hk
            · next heq =>
                obtain rfl := heq
                obtain rfl := Option.some.inj (hq.symm.trans hqueue)
                subst hk
                exact ⟨_, hmem, List.mem_cons_of_mem _ hl⟩
            · exact ⟨queue, hmem, hk ▸ hl⟩
        · exact ⟨queue', hqueue', hl⟩
    | addQueue queue =>
        rcases List.mem_append.1 hqueue' with hmem | hmem
        · exact .inl ⟨queue', hmem, hl⟩
        · obtain rfl := List.mem_singleton.1 hmem
          exact .inr (.inr ⟨_, rfl, hl⟩)
    | acquire p item policy factory =>
        left
        refine ⟨queue', ?_, hl⟩
        rw [act, configure] at hqueue'
        cases hp : s.offered? p with
        | none => rwa [s.takeHolder_of_not_offered? hp] at hqueue'
        | some h => rwa [s.takeHolder_of_offered? hp] at hqueue'
    | giveBack k referred =>
        left
        refine ⟨queue', ?_, hl⟩
        simp only [act, giveBack] at hqueue'
        split at hqueue'
        · exact hqueue'
        · split at hqueue'
          · exact hqueue'
          · split at hqueue' <;> exact hqueue'
    | addPool pool => exact .inl ⟨queue', hqueue', hl⟩
    | clearPool p => exact .inl ⟨queue', hqueue', hl⟩
    | dropPool p => exact .inl ⟨queue', hqueue', hl⟩
    | _ => exact absurd rfl ha

/-- The listener of a tree keeps its handle; a new tree has the listener it was built with. -/
theorem listens_act {a : Act} {w : WeakHandle} (h : (s.act a).Listens w) :
    s.Listens w ∨ ∃ l, l.handle = some w ∧
      ((∃ e c, a = .build e c ∧ c.listener = some l) ∨
        ∃ call item component handle, a = .claimTree call item component handle (some l)) := by
  obtain ⟨t, y, l, hy, hl, hw⟩ := h
  cases hx : s.tree? t with
  | some x =>
      obtain rfl := Option.some.inj ((s.tree?_act a hx).symm.trans hy)
      rw [config_onTree] at hl
      exact .inl ⟨t, x, l, hx, hl, hw⟩
  | none =>
      right
      refine ⟨l, hw, ?_⟩
      rcases s.of_tree?_act hx hy with ⟨e, c, rfl, rfl⟩ |
        ⟨call, item, component, handle, listener, rfl, hlistener⟩
      · exact .inl ⟨e, c, rfl, hl⟩
      · rw [hlistener] at hl
        subst hl
        exact .inr ⟨call, item, component, handle, rfl⟩

/-! ## Lists of acts -/

theorem waits_acts {as : List Act} {l : Layout} (h : (s.acts as).Waits l) :
    s.Waits l ∨ (∃ q, .enqueue q l ∈ as) ∨ ∃ queue, .addQueue queue ∈ as ∧ l ∈ queue.waiting := by
  induction as generalizing s with
  | nil => exact .inl h
  | cons a as ih =>
      rcases ih (s.act a) h with h | ⟨q, h⟩ | ⟨queue, h, hl⟩
      · rcases s.waits_act h with h | ⟨q, rfl⟩ | ⟨queue, rfl, hl⟩
        · exact .inl h
        · exact .inr (.inl ⟨q, List.mem_cons_self⟩)
        · exact .inr (.inr ⟨queue, List.mem_cons_self, hl⟩)
      · exact .inr (.inl ⟨q, List.mem_cons_of_mem _ h⟩)
      · exact .inr (.inr ⟨queue, List.mem_cons_of_mem _ h, hl⟩)

theorem listens_acts {as : List Act} {w : WeakHandle} (h : (s.acts as).Listens w) :
    s.Listens w ∨ ∃ l, l.handle = some w ∧
      ((∃ e c, .build e c ∈ as ∧ c.listener = some l) ∨
        ∃ call item component handle, .claimTree call item component handle (some l) ∈ as) := by
  induction as generalizing s with
  | nil => exact .inl h
  | cons a as ih =>
      rcases ih (s.act a) h with h | ⟨l, hw, ⟨e, c, h, hl⟩ | ⟨call, item, component, handle, h⟩⟩
      · rcases s.listens_act h with
          h | ⟨l, hw, ⟨e, c, rfl, hl⟩ | ⟨call, item, component, handle, rfl⟩⟩
        · exact .inl h
        · exact .inr ⟨l, hw, .inl ⟨e, c, List.mem_cons_self, hl⟩⟩
        · exact .inr ⟨l, hw, .inr ⟨call, item, component, handle, List.mem_cons_self⟩⟩
      · exact .inr ⟨l, hw, .inl ⟨e, c, List.mem_cons_of_mem _ h, hl⟩⟩
      · exact .inr ⟨l, hw, .inr ⟨call, item, component, handle, List.mem_cons_of_mem _ h⟩⟩

/-- A holder that is idle was idle before, or has just been given back. -/
theorem idles_acts {as : List Act} {p h : Nat} (hi : (s.acts as).Idles p h) :
    s.Idles p h ∨ .giveBack h false ∈ as ∨ ∃ pool, .addPool pool ∈ as ∧ h ∈ pool.idle := by
  induction as generalizing s with
  | nil => exact .inl hi
  | cons a as ih =>
      rcases ih (s.act a) hi with hi | hi | ⟨pool, hi, hmem⟩
      · obtain ⟨pool', hpool', hmem⟩ := hi
        rcases s.restocked_act hpool' with rfl | ⟨pool, hpool, hidle⟩
        · exact .inr (.inr ⟨pool', List.mem_cons_self, hmem⟩)
        · generalize pool'.idle = idle at hidle hmem
          cases hidle with
          | kept ha => exact .inl ⟨pool, hpool, hmem⟩
          | taken item policy factory => exact .inl ⟨pool, hpool, List.mem_of_mem_tail hmem⟩
          | cleared => cases hmem
          | offered hx hp =>
              rcases List.mem_cons.1 hmem with rfl | hmem
              · exact .inr (.inl List.mem_cons_self)
              · exact .inl ⟨pool, hpool, hmem⟩
      · exact .inr (.inl (List.mem_cons_of_mem _ hi))
      · exact .inr (.inr ⟨pool, List.mem_cons_of_mem _ hi, hmem⟩)

/-- Idle holders only become fewer unless one is given back. -/
theorem idle_suffix_acts {as : List Act} {p : Nat} {pool' : Pool}
    (hgive : ∀ h, .giveBack h false ∉ as) (hadd : ∀ pool, .addPool pool ∈ as → pool.idle = [])
    (h : (s.acts as).pool? p = some pool') :
    pool'.idle = [] ∨ ∃ pool, s.pool? p = some pool ∧ pool'.idle <:+ pool.idle := by
  induction as generalizing s with
  | nil => exact .inr ⟨pool', h, List.suffix_refl _⟩
  | cons a as ih =>
      rcases ih (s.act a) (fun h hh => hgive h (List.mem_cons_of_mem _ hh))
        (fun pool hp => hadd pool (List.mem_cons_of_mem _ hp)) h with hnil | ⟨pool₁, hpool₁, hsuf⟩
      · exact .inl hnil
      · rcases s.restocked_act hpool₁ with rfl | ⟨pool, hpool, hidle⟩
        · rw [hadd pool₁ List.mem_cons_self] at hsuf
          exact .inl (List.suffix_nil.1 hsuf)
        · generalize pool₁.idle = idle at hidle hsuf
          cases hidle with
          | kept ha => exact .inr ⟨pool, hpool, hsuf⟩
          | taken item policy factory =>
              exact .inr ⟨pool, hpool, hsuf.trans (List.tail_suffix _)⟩
          | cleared => exact .inl (List.suffix_nil.1 hsuf)
          | offered hx hp => exact absurd List.mem_cons_self (hgive _)

theorem length_le_acts (as : List Act) : s.holders.length ≤ (s.acts as).holders.length := by
  induction as generalizing s with
  | nil => exact Nat.le_refl _
  | cons a as ih => exact Nat.le_trans (s.length_le_act a) (ih _)

end Recycler.Store

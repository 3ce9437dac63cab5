import Recycler.Proofs.Store.Pool

/-!
# A pool as a stack

What acts make of one pool (`pool?_act`). The counters of a pool add up to what was asked of it
(`booked_acts`), and its idle holders are those that were put on the list and neither taken nor
cleared since, with the one put last in front (`reverse_idle_acts`).
-/

namespace Recycler

namespace Pool

variable {pool pool' pool'' : Pool} {n n' k k' r r' : Nat}

/-- What becomes of a pool that was asked for `n` holders, was handed `k` in, and let go of `r`
when it was cleared, as far as numbers go. -/
structure Counts (pool pool' : Pool) (n k r : Nat) : Prop where
  capacity : pool'.capacity = pool.capacity
  bounded : pool.idle.length ≤ pool.capacity.toNat → pool'.idle.length ≤ pool'.capacity.toNat
  acquired : pool'.stats.hits + pool'.stats.misses = pool.stats.hits + pool.stats.misses + n
  handedIn : pool'.stats.recycled + pool'.stats.dropped =
    pool.stats.recycled + pool.stats.dropped + k
  balance : pool'.stats.recycled + (pool.stats.hits + pool.idle.length) =
    pool.stats.recycled + (pool'.stats.hits + pool'.idle.length + r)

theorem Counts.refl (pool : Pool) : pool.Counts pool 0 0 0 := ⟨rfl, fun h => h, rfl, rfl, rfl⟩

theorem Counts.trans (h : pool.Counts pool' n k r) (h' : pool'.Counts pool'' n' k' r') :
    pool.Counts pool'' (n + n') (k + k') (r + r') where
  capacity := h'.capacity.trans h.capacity
  bounded hle := h'.bounded (h.bounded hle)
  acquired := by rw [h'.acquired, h.acquired, Nat.add_assoc]
  handedIn := by rw [h'.handedIn, h.handedIn, Nat.add_assoc]
  balance := by
    have hfirst := h.balance
    have hsecond := h'.balance
    omega

theorem counts_take (pool : Pool) : pool.Counts pool.take.1 1 0 0 := by
  obtain ⟨capacity, _ | ⟨h, idle⟩, stats⟩ := pool
  · exact ⟨rfl, fun h => h, rfl, rfl, rfl⟩
  · refine ⟨rfl, fun hle => Nat.le_of_succ_le hle, ?_, rfl, ?_⟩
    · simp only [take]
      omega
    · simp only [take, List.length_cons]
      omega

theorem counts_drop (pool : Pool) : pool.Counts pool.drop 0 1 0 := ⟨rfl, fun h => h, rfl, rfl, rfl⟩

theorem counts_offer (pool : Pool) (h : Nat) : pool.Counts (pool.offer h) 0 1 0 := by
  unfold offer
  split
  · next hroom =>
      refine ⟨rfl, fun _ => hroom, rfl, ?_, ?_⟩
      · dsimp only
        omega
      · simp only [List.length_cons]
        omega
  · exact pool.counts_drop

theorem counts_clear (pool : Pool) : pool.Counts pool.clear 0 0 pool.idle.length :=
  ⟨rfl, fun _ => Nat.zero_le _, rfl, rfl, by simp [clear]⟩

end Pool

namespace Store

variable (s : Store) {p h : Nat} {x : Holder} {pool pool' : Pool} {a : Act} {as bs : List Act}

/-! ## Sums along acts -/

/-- What acts come to, each of them at the store that it finds. -/
def total (g : Store → Act → Nat) : Store → List Act → Nat
  | _, [] => 0
  | s, a :: as => g s a + total g (s.act a) as

@[simp] theorem total_nil (g : Store → Act → Nat) : total g s [] = 0 := rfl

theorem total_cons (g : Store → Act → Nat) (a : Act) (as : List Act) :
    total g s (a :: as) = g s a + total g (s.act a) as := rfl

theorem total_append (g : Store → Act → Nat) (as bs : List Act) :
    total g s (as ++ bs) = total g s as + total g (s.acts as) bs := by
  induction as generalizing s with
  | nil => simp
  | cons a as ih => rw [List.cons_append, total_cons, total_cons, ih, acts_cons, Nat.add_assoc]

theorem total_eq_zero {g : Store → Act → Nat} (hg : ∀ a ∈ as, ∀ t, g t a = 0) :
    total g s as = 0 := by
  induction as generalizing s with
  | nil => rfl
  | cons a as ih =>
      rw [total_cons, hg a List.mem_cons_self, ih (s.act a) fun b hb =>
        hg b (List.mem_cons_of_mem _ hb)]

/-- Whether a holder goes back to a pool. -/
def isHome (p h : Nat) : Bool := s.holders[h]?.any (·.home = p)

theorem isHome_eq (hx : s.holders[h]? = some x) : s.isHome p h = decide (x.home = p) := by
  rw [isHome, hx]
  rfl

theorem isHome_eq_false (hx : s.holders[h]? = none) : s.isHome p h = false := by
  rw [isHome, hx]
  rfl

theorem isHome_act (a : Act) (hlt : h < s.holders.length) :
    (s.act a).isHome p h = s.isHome p h := by
  have hx := List.getElem?_eq_getElem hlt
  rw [s.isHome_eq hx, isHome_eq _ (s.holders_act a hx), home_onHolder]

/-- An item asks a pool for a holder. -/
def acquired (p : Nat) (_ : Store) (a : Act) : Nat := if a.takesFrom p then 1 else 0

/-- A release of a holder of a pool begins. -/
def released (p : Nat) (s : Store) : Act → Nat
  | .reset h => if s.isHome p h then 1 else 0
  | _ => 0

/-- A release of a holder of a pool comes to its end. -/
def handedIn (p : Nat) (s : Store) : Act → Nat
  | .giveBack h _ => if s.isHome p h then 1 else 0
  | _ => 0

/-- The number of holders that a pool lets go of when it is cleared. -/
def removed (p : Nat) (s : Store) : Act → Nat
  | .clearPool q => if q = p then ((s.pool? p).map (·.idle.length)).getD 0 else 0
  | _ => 0

/-! ## One pool -/

/-- What an act makes of the pool with a number. -/
def Act.onPool (s : Store) (p : Nat) (pool : Pool) : Act → Pool
  | .acquire q .. => if q = p then pool.take.1 else pool
  | .giveBack h referred =>
    if s.isHome p h then if referred then pool.drop else pool.offer h else pool
  | .clearPool q => if q = p then pool.clear else pool
  | _ => pool

/-- Whether an act gives a pool up. -/
def Act.drops (p : Nat) : Act → Bool
  | .dropPool q => q = p
  | _ => false

theorem lt_of_pool? (hp : s.pool? p = some pool) : p < s.pools.length :=
  (List.getElem?_eq_some_iff.1 (Option.join_eq_some_iff.1 hp)).1

/-- What an act makes of the pools that are there. -/
theorem pool?_act (a : Act) (hp : s.pool? p = some pool) :
    (s.act a).pool? p = if a.drops p then none else some (a.onPool s p pool) := by
  by_cases ha : a.stocks = false
  · rw [pool?_congr (s.stocked_act ha).pools, hp]
    cases a with
    | acquire | giveBack | addPool | clearPool | dropPool | enqueue | dequeue | addQueue => cases ha
    | _ => rfl
  · cases a with
    | acquire q item policy factory =>
        rw [pool?_acquire, hp]
        simp only [Act.drops, Act.onPool]
        split <;> rfl
    | giveBack h referred =>
        rw [act, pool?_giveBack, hp, Act.onPool]
        cases hx : s.holders[h]? with
        | none =>
            rw [s.isHome_eq_false hx]
            rfl
        | some x =>
            rw [s.isHome_eq hx]
            by_cases hhome : x.home = p <;> cases referred <;> simp [hhome, Act.drops]
    | clearPool q =>
        rw [act, pool?_modifyPool, hp]
        simp only [Act.drops, Act.onPool]
        split <;> rfl
    | dropPool q =>
        rw [act, pool?_dropPool, hp]
        simp [Act.drops, Act.onPool]
    | addPool new =>
        rw [pool?_addPool, if_neg (Nat.ne_of_lt (s.lt_of_pool? hp)), hp]
        rfl
    | dequeue q =>
        rw [pool?_congr (s := s), hp]
        · rfl
        · rw [act, dequeue]
          split <;> rfl
    | enqueue q l => exact hp
    | addQueue queue => exact hp
    | _ => exact absurd rfl ha

theorem length_pools_le_act (a : Act) : s.pools.length ≤ (s.act a).pools.length := by
  by_cases ha : a.stocks = false
  · exact Nat.le_of_eq (congrArg _ (s.stocked_act ha).pools).symm
  · cases a with
    | acquire q item policy factory =>
        rw [act, configure]
        cases hp : s.offered? q with
        | none => simp [s.takeHolder_of_not_offered? hp, modifyState, modifyHolder, modifyPool]
        | some h => simp [s.takeHolder_of_offered? hp, modifyState, modifyHolder, modifyPool]
    | giveBack h referred =>
        rw [act, giveBack]
        split
        · exact Nat.le_refl _
        · split
          · exact Nat.le_refl _
          · split <;> simp [modifyPool]
    | dequeue q =>
        rw [act, dequeue]
        split <;> simp [modifyQueue]
    | clearPool q => simp [act, modifyPool]
    | dropPool q => simp [act, dropPool]
    | addPool new => simp [act]
    | enqueue q l => exact Nat.le_refl _
    | addQueue queue => exact Nat.le_refl _
    | _ => exact absurd rfl ha

/-- A pool that was given up does not come back. -/
theorem pool?_acts_eq_none (hlt : p < s.pools.length) (hp : s.pool? p = none) (as : List Act) :
    (s.acts as).pool? p = none := by
  refine (acts_induction (P := fun t => p < t.pools.length ∧ t.pool? p = none) ?_ ⟨hlt, hp⟩ as).2
  rintro t a ⟨hlt, hp⟩
  refine ⟨Nat.lt_of_lt_of_le hlt (t.length_pools_le_act a), Option.eq_none_iff_forall_ne_some.2 ?_⟩
  intro pool' hpool'
  rcases t.restocked_act hpool' with rfl | ⟨pool, hpool, -⟩
  · rw [pool?_addPool, if_neg (Nat.ne_of_lt hlt), hp] at hpool'
    cases hpool'
  · rw [hp] at hpool
    cases hpool

/-- A pool that is there in the end is there after the first act. -/
theorem pool?_act_of_acts (hp : s.pool? p = some pool)
    (hp' : (s.acts (a :: as)).pool? p = some pool') :
    (s.act a).pool? p = some (a.onPool s p pool) := by
  have hfirst := s.pool?_act a hp
  cases hdrop : a.drops p with
  | false => rwa [hdrop, if_neg Bool.false_ne_true] at hfirst
  | true =>
      rw [hdrop, if_pos rfl] at hfirst
      have hlt := Nat.lt_of_lt_of_le (s.lt_of_pool? hp) (s.length_pools_le_act a)
      rw [acts_cons, pool?_acts_eq_none _ hlt hfirst] at hp'
      cases hp'

theorem exists_pool?_of_acts (hp : s.pool? p = some pool)
    (hp' : ((s.acts as).acts bs).pool? p = some pool') :
    ∃ between, (s.acts as).pool? p = some between := by
  induction as generalizing s pool with
  | nil => exact ⟨pool, hp⟩
  | cons a as ih =>
      rw [acts_cons, ← acts_append, ← acts_cons] at hp'
      have hfirst := s.pool?_act_of_acts hp hp'
      rw [acts_cons, acts_append] at hp'
      exact ih (s.act a) hfirst hp'

/-! ## Counters -/

theorem counts_act (a : Act) (hp : s.pool? p = some pool) : pool.Counts (a.onPool s p pool)
    (acquired p s a) (handedIn p s a) (removed p s a) := by
  cases a with
  | acquire q item policy factory =>
      by_cases hq : q = p
      · simpa [Act.onPool, acquired, Act.takesFrom, handedIn, removed, hq] using pool.counts_take
      · simpa [Act.onPool, acquired, Act.takesFrom, handedIn, removed, hq] using .refl pool
  | giveBack h referred =>
      simp only [Act.onPool, acquired, Act.takesFrom, handedIn, removed]
      split
      · cases referred with
        | true => exact pool.counts_drop
        | false => exact pool.counts_offer h
      · exact .refl pool
  | clearPool q =>
      simp only [Act.onPool, acquired, Act.takesFrom, handedIn, removed, hp]
      split
      · exact pool.counts_clear
      · exact .refl pool
  | _ => exact .refl pool

/-- The counters of a pool that is there add up to what was asked of it. -/
theorem counts_acts (hp : s.pool? p = some pool) (hp' : (s.acts as).pool? p = some pool') :
    pool.Counts pool' (total (acquired p) s as) (total (handedIn p) s as)
      (total (removed p) s as) := by
  induction as generalizing s pool with
  | nil =>
      obtain rfl := Option.some.inj (hp.symm.trans hp')
      exact .refl pool
  | cons a as ih =>
      exact (s.counts_act a hp).trans (ih (s.act a) (s.pool?_act_of_acts hp hp') hp')

/-! ## Order -/

/-- What happens to the list of idle holders of a pool. -/
inductive Move
  | put (holder : Nat)
  | taken (holder : Nat)
  | cleared
  deriving DecidableEq

/-- The holders that were put on the list and neither taken nor cleared since, in the order in which
they were put there. -/
def waiting : List Move → List Nat
  | [] => []
  | .put h :: ms => if .taken h ∈ ms ∨ .cleared ∈ ms then waiting ms else h :: waiting ms
  | _ :: ms => waiting ms

/-- What an act does to the list of idle holders of a pool. -/
def Act.moves (s : Store) (p : Nat) : Act → List Move
  | .acquire q .. => if q = p then ((s.offered? p).map .taken).toList else []
  | .giveBack h referred =>
    if s.isHome p h ∧ referred = false ∧
        (s.pool? p).any (fun pool => pool.idle.length < pool.capacity.toNat) then [.put h]
    else []
  | .clearPool q => if q = p then [.cleared] else []
  | _ => []

/-- What acts do to the list of idle holders of a pool. -/
def moves (p : Nat) : Store → List Act → List Move
  | _, [] => []
  | s, a :: as => a.moves s p ++ moves p (s.act a) as

@[simp] theorem moves_nil (p : Nat) : moves p s [] = [] := rfl

theorem moves_cons (p : Nat) (a : Act) (as : List Act) :
    moves p s (a :: as) = a.moves s p ++ moves p (s.act a) as := rfl

theorem moves_append (p : Nat) (as bs : List Act) :
    moves p s (as ++ bs) = moves p s as ++ moves p (s.acts as) bs := by
  induction as generalizing s with
  | nil => rfl
  | cons a as ih =>
      rw [List.cons_append, moves_cons, moves_cons, ih, acts_cons, List.append_assoc]

/-- What happens later takes some of the holders off the list, and adds others behind them. -/
theorem waiting_append (ms ns : List Move) :
    waiting (ms ++ ns) =
      (waiting ms).filter (fun h => .taken h ∉ ns ∧ .cleared ∉ ns) ++ waiting ns := by
  induction ms with
  | nil => rfl
  | cons m ms ih =>
      cases m with
      | put h =>
          rw [List.cons_append, waiting, waiting, ih]
          have hgone : (.taken h ∈ ms ++ ns ∨ .cleared ∈ ms ++ ns) ↔
              (.taken h ∈ ms ∨ .cleared ∈ ms) ∨ ¬ (.taken h ∉ ns ∧ .cleared ∉ ns) := by
            simp only [List.mem_append]
            grind
          by_cases hms : .taken h ∈ ms ∨ .cleared ∈ ms
          · rw [if_pos hms, if_pos (hgone.2 (.inl hms))]
          · rw [if_neg hms, List.filter_cons]
            by_cases hns : .taken h ∉ ns ∧ .cleared ∉ ns
            · rw [if_pos (decide_eq_true hns), List.cons_append,
                if_neg fun h => (hgone.1 h).elim hms fun h => h hns]
            · rw [if_pos (hgone.2 (.inr hns)), if_neg (by simpa using hns)]
      | _ => exact ih

theorem waiting_put (ms : List Move) (h : Nat) : waiting (ms ++ [.put h]) = waiting ms ++ [h] := by
  simp [waiting_append, waiting]

theorem waiting_taken (ms : List Move) (h : Nat) :
    waiting (ms ++ [.taken h]) = (waiting ms).filter (· ≠ h) := by
  simp [waiting_append, waiting]

theorem waiting_cleared (ms : List Move) : waiting (ms ++ [.cleared]) = [] := by
  simp [waiting_append, waiting]

theorem offered?_eq_head? (hp : s.pool? p = some pool) : s.offered? p = pool.idle.head? := by
  rw [offered?, hp, Option.bind_some, Pool.take]
  cases pool.idle <;> rfl

/-- The idle holders of a pool stay those that wait there. -/
theorem reverse_idle_onPool {ms : List Move} (hp : s.pool? p = some pool)
    (hnodup : pool.idle.Nodup) (hms : pool.idle.reverse = waiting ms) (a : Act) :
    (a.onPool s p pool).idle.reverse = waiting (ms ++ a.moves s p) := by
  cases a with
  | acquire q item policy factory =>
      simp only [Act.onPool, Act.moves]
      split
      · rw [s.offered?_eq_head? hp, idle_take]
        cases hidle : pool.idle with
        | nil => simpa [hidle] using hms
        | cons h idle =>
            rw [hidle, List.nodup_cons] at hnodup
            rw [List.head?_cons, Option.map_some, Option.toList_some, waiting_taken, ← hms, hidle,
              List.tail_cons, List.reverse_cons, List.filter_append, List.filter_eq_self.2]
            · simp
            · intro k hk
              have hkh : k ≠ h := fun hkh => hnodup.1 (hkh ▸ List.mem_reverse.1 hk)
              simpa using hkh
      · rwa [List.append_nil]
  | giveBack h referred =>
      simp only [Act.onPool, Act.moves, hp, Option.any_some, decide_eq_true_eq]
      cases hhome : s.isHome p h with
      | false => simpa using hms
      | true =>
          cases referred with
          | true => simpa [Pool.drop] using hms
          | false =>
              simp only [if_true, Bool.false_eq_true, if_false, true_and, idle_offer]
              split
              · rw [waiting_put, ← hms, List.reverse_cons]
              · rwa [List.append_nil]
  | clearPool q =>
      simp only [Act.onPool, Act.moves]
      split
      · rw [waiting_cleared]
        rfl
      · rwa [List.append_nil]
  | _ => simpa [Act.onPool, Act.moves] using hms

theorem nodup_idle_onPool (hnodup : pool.idle.Nodup) (ha : ∀ h referred, a ≠ .giveBack h referred) :
    (a.onPool s p pool).idle.Nodup := by
  cases a with
  | acquire q item policy factory =>
      rw [Act.onPool]
      split
      · rw [idle_take]
        exact hnodup.tail
      · exact hnodup
  | giveBack h referred => exact absurd rfl (ha h referred)
  | clearPool q =>
      rw [Act.onPool]
      split
      · exact List.nodup_nil
      · exact hnodup
  | _ => exact hnodup

/-- The idle holders of a pool are those that wait there, if a holder is given back only by itself.
None is idle twice, so that one that is taken is not there any more. -/
theorem reverse_idle_acts {ms : List Move} (hp : s.pool? p = some pool)
    (hnodup : pool.idle.Nodup) (hms : pool.idle.reverse = waiting ms)
    (hgive : ∀ h referred, .giveBack h referred ∈ as → as = [.giveBack h referred])
    (hp' : (s.acts as).pool? p = some pool') :
    pool'.idle.reverse = waiting (ms ++ moves p s as) := by
  induction as generalizing s pool ms with
  | nil =>
      obtain rfl := Option.some.inj (hp.symm.trans hp')
      rwa [moves_nil, List.append_nil]
  | cons a as ih =>
      have hfirst := s.pool?_act_of_acts hp hp'
      have hnext := s.reverse_idle_onPool hp hnodup hms a
      rw [moves_cons, ← List.append_assoc]
      by_cases ha : ∃ h referred, a = .giveBack h referred
      · obtain ⟨h, referred, rfl⟩ := ha
        obtain ⟨-, rfl⟩ := List.cons.inj (hgive h referred List.mem_cons_self)
        obtain rfl := Option.some.inj (hfirst.symm.trans hp')
        rwa [moves_nil, List.append_nil]
      · have hnot : ∀ h referred, a ≠ .giveBack h referred := fun h referred heq =>
          ha ⟨h, referred, heq⟩
        refine ih (s.act a) hfirst (s.nodup_idle_onPool hnodup hnot) hnext
          (fun h referred hmem => ?_) hp'
        exact absurd (List.cons.inj (hgive h referred (List.mem_cons_of_mem _ hmem))).1
          (hnot h referred)

end Store

end Recycler

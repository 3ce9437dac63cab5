import Recycler.Proofs.Store.Valid

/-!
# Heights and committed layouts

Which acts change the measured height of a holder, and which layout a tree has after some acts: the
one that was committed to it last.
-/

namespace Recycler.Store

variable {s : Store} {h : Nat} {x y : Holder} {a : Act} {as : List Act} {t : TreeRef} {u : Tree}
  {c : Tree.Committed}

/-- Whether an act may change the measured height of a holder. -/
def Act.setsHeight (h : Nat) : Act → Bool
  | .reset k => k = h
  | .change k (.setHeight _) => k = h
  | .commitLayout r _ => r.call.holder = h
  | .writeHeight w _ => w.holder = h
  | _ => false

theorem height_onHolder (ha : a.setsHeight h = false) :
    (a.onHolder s h x).state.height = x.state.height := by
  cases a with
  | reset k => rw [Act.onHolder, if_neg (of_decide_eq_false ha)]
  | commitLayout r size =>
      rw [Act.onHolder, if_neg fun hc => of_decide_eq_false ha hc.1]
  | writeHeight w height =>
      rw [Act.onHolder, if_neg fun hc => of_decide_eq_false ha hc.1]
  | change k c =>
      rw [Act.onHolder]
      split
      · next hk =>
          cases c with
          | setHeight height => exact absurd hk (of_decide_eq_false ha)
          | clearParked =>
              obtain ⟨slot, heq⟩ := x.state.clearParked_eq
              rw [Holder.State.change, heq]
          | _ => rfl
      · rfl
  | evict | claimTree =>
      rw [Act.onHolder]
      split <;> simp
  | _ =>
      simp only [Act.onHolder]
      try split
      all_goals rfl

theorem height_acts (hx : s.holders[h]? = some x) (ha : ∀ a ∈ as, a.setsHeight h = false)
    (hy : (s.acts as).holders[h]? = some y) : y.state.height = x.state.height := by
  induction as generalizing s x with
  | nil => rw [Option.some.inj (hx.symm.trans hy)]
  | cons a as ih =>
      rw [ih (s.holders_act a hx) (fun b hb => ha b (List.mem_cons_of_mem _ hb)) hy,
        height_onHolder (ha a List.mem_cons_self)]

/-- Whether an act sets the height of a holder other than through a weak handle. -/
def Act.dictates : Act → Bool
  | .reset _ => true
  | .change _ (.setHeight _) => true
  | .commitLayout .. => true
  | _ => false

/-- The height that an act writes through a weak handle. -/
def Act.written? (w : WeakHandle) : Act → Option Int32
  | .writeHeight w' height => if w' = w then some height else none
  | _ => none

/-- The height that was written through a weak handle last. -/
def lastWritten? (w : WeakHandle) : List Act → Option Int32
  | [] => none
  | a :: as => (lastWritten? w as).or (a.written? w)

theorem height_onHolder_of_not_dictates (ha : a.dictates = false) :
    (a.onHolder s h x).state.height = (a.written? (x.downgrade h)).or x.state.height ∧
      (a.onHolder s h x).generation = x.generation := by
  have hgeneration : (a.onHolder s h x).generation = x.generation := by
    rw [generation_onHolder, if_neg]
    intro hr
    rw [Act.eq_of_resets hr] at ha
    cases ha
  refine ⟨?_, hgeneration⟩
  cases a with
  | writeHeight w height =>
      have hw : (w.holder = h ∧ x.generation = w.generation) ↔ w = x.downgrade h := by
        obtain ⟨k, g⟩ := w
        rw [Holder.downgrade, WeakHandle.mk.injEq]
        exact and_congr_right fun _ => eq_comm
      simp only [Act.onHolder, Act.written?, hw]
      split <;> rfl
  | reset => cases ha
  | commitLayout => cases ha
  | change k c =>
      rw [height_onHolder]
      · rfl
      · cases c with
        | setHeight => cases ha
        | _ => rfl
  | _ => exact height_onHolder rfl

/-- A height that nobody sets otherwise is the one written last through a handle that is good. -/
theorem height_acts_of_not_dictates (hx : s.holders[h]? = some x)
    (ha : ∀ a ∈ as, a.dictates = false) (hy : (s.acts as).holders[h]? = some y) :
    y.state.height = (lastWritten? (x.downgrade h) as).or x.state.height := by
  induction as generalizing s x with
  | nil => rw [Option.some.inj (hx.symm.trans hy)]; rfl
  | cons a as ih =>
      obtain ⟨hheight, hgeneration⟩ :=
        height_onHolder_of_not_dictates (s := s) (h := h) (x := x) (ha a List.mem_cons_self)
      rw [ih (s.holders_act a hx) (fun b hb => ha b (List.mem_cons_of_mem _ hb)) hy, hheight,
        Holder.downgrade, hgeneration, lastWritten?, Option.or_assoc]
      rfl

/-- The layout that an act commits to a tree. -/
def Act.commits? (t : TreeRef) : Act → Option Tree.Committed
  | .settleLayout l size => if l.tree = t then some ⟨l.bounds, size⟩ else none
  | _ => none

/-- The layout that was committed to a tree last. -/
def lastCommitted? (t : TreeRef) : List Act → Option Tree.Committed
  | [] => none
  | a :: as => (lastCommitted? t as).or (a.commits? t)

theorem committed_onTree : (a.onTree s t u).committed = (a.commits? t).or u.committed := by
  cases ha : a.settles t with
  | false =>
      have hnone : a.commits? t = none := by
        cases a with
        | settleLayout l size => exact if_neg (of_decide_eq_false ha)
        | _ => rfl
      rw [hnone, (shown_onTree ha).2, Option.none_or]
  | true =>
      cases a with
      | settleLayout l size =>
          have htree : l.tree = t := of_decide_eq_true ha
          rw [Act.onTree, if_pos htree, Act.commits?, if_pos htree]
          rfl
      | _ => cases ha

theorem committed_acts (hu : s.tree? t = some u) (as : List Act) :
    ∃ v, (s.acts as).tree? t = some v ∧ v.committed = (lastCommitted? t as).or u.committed := by
  induction as generalizing s u with
  | nil => exact ⟨u, hu, rfl⟩
  | cons a as ih =>
      obtain ⟨v, hv, hcommitted⟩ := ih (s.tree?_act a hu)
      exact ⟨v, hv, by rw [hcommitted, committed_onTree, lastCommitted?, Option.or_assoc]⟩

theorem exists_of_lastCommitted? (hc : lastCommitted? t as = some c) :
    ∃ l size, .settleLayout l size ∈ as ∧ l.tree = t ∧ c = ⟨l.bounds, size⟩ := by
  induction as with
  | nil => cases hc
  | cons a as ih =>
      rw [lastCommitted?, Option.or_eq_some_iff] at hc
      rcases hc with hc | ⟨-, hc⟩
      · obtain ⟨l, size, hl, hrest⟩ := ih hc
        exact ⟨l, size, List.mem_cons_of_mem _ hl, hrest⟩
      · cases a with
        | settleLayout l size =>
            rw [Act.commits?] at hc
            split at hc
            · next htree => exact ⟨l, size, List.mem_cons_self, htree, (Option.some.inj hc).symm⟩
            · cases hc
        | _ => cases hc

/-- A tree that a layout was settled on has that one, or one that was settled later. -/
theorem committed_of_settled {l : Layout} (size : Size) (hl : s.Built l.tree) (as : List Act) :
    ∃ v c, ((s.act (.settleLayout l size)).acts as).tree? l.tree = some v ∧
      v.committed = some c ∧ (c = ⟨l.bounds, size⟩ ∨
        ∃ l' size', .settleLayout l' size' ∈ as ∧ l'.tree = l.tree ∧ c = ⟨l'.bounds, size'⟩) := by
  obtain ⟨u, hu⟩ := s.built_iff.1 hl
  obtain ⟨v, hv, hcommitted⟩ := committed_acts (s.tree?_act (.settleLayout l size) hu) as
  rw [Act.onTree, if_pos rfl] at hcommitted
  cases hlast : lastCommitted? l.tree as with
  | none =>
      rw [hlast, Option.none_or] at hcommitted
      exact ⟨v, _, hv, hcommitted, .inl rfl⟩
  | some c =>
      rw [hlast, Option.some_or] at hcommitted
      exact ⟨v, c, hv, hcommitted, .inr (exists_of_lastCommitted? hlast)⟩

end Recycler.Store

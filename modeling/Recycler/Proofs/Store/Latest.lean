import Mathlib.Data.List.Induction
import Recycler.Proofs.Store.Height

/-!
# The latest request of a holder

A holder keeps the constraints of one request, the last one that was started while the holder had a
component to lay out (`LatestRequest`). Only a release makes it forget them. A tree keeps the layout
that was settled on it last (`LatestLayout`), whoever asked for it.
-/

namespace Recycler.Store

/-- Whether an act starts a request on a holder that has a component to lay out. -/
def Act.starts (s : Store) (h : Nat) : Act → Bool
  | .openRequest call =>
    call.holder = h ∧ ((s.holders[h]?.bind (·.state.item)).bind (·.value.component?)).isSome
  | _ => false

/-- A holder is not released, and no request is started on it. -/
def Unasked (h : Nat) (s : Store) : List Act → Prop
  | [] => True
  | a :: as => (a.resets h = false ∧ a.starts s h = false) ∧ Unasked h (s.act a) as

/-- The last request that was started on a holder while the holder had a component to lay out, of
those since its last release. -/
def LatestRequest (h : Nat) (s : Store) (as : List Act) (call : Call) : Prop :=
  ∃ bs cs, as = bs ++ .openRequest call :: cs ∧ (Act.openRequest call).starts (s.acts bs) h ∧
    Unasked h (s.acts (bs ++ [.openRequest call])) cs

/-- The layout that was settled on a tree last. -/
def LatestLayout (t : TreeRef) (as : List Act) (l : Layout) (size : Size) : Prop :=
  ∃ bs cs, as = bs ++ .settleLayout l size :: cs ∧ l.tree = t ∧ ∀ a ∈ cs, a.settles t = false

variable {s : Store} {h : Nat} {x y : Holder} {a : Act} {as bs : List Act} {call : Call}
  {t : TreeRef} {u : Tree} {c : Tree.Committed}

theorem unasked_append :
    Unasked h s (as ++ bs) ↔ Unasked h s as ∧ Unasked h (s.acts as) bs := by
  induction as generalizing s with
  | nil => exact (and_iff_right trivial).symm
  | cons a as ih =>
      rw [List.cons_append, Unasked, Unasked, ih, and_assoc, and_assoc, and_assoc, acts_cons]

theorem starts_iff :
    a.starts s h ↔ ∃ call x item, a = .openRequest call ∧ call.holder = h ∧
      s.holders[h]? = some x ∧ x.state.item = some item ∧ item.value.component?.isSome := by
  cases a with
  | openRequest call =>
      rw [Act.starts, decide_eq_true_eq]
      constructor
      · rintro ⟨hh, hsome⟩
        obtain ⟨component, hc⟩ := Option.isSome_iff_exists.1 hsome
        obtain ⟨item, hitem, hc⟩ := Option.bind_eq_some_iff.1 hc
        obtain ⟨x, hx, hitem⟩ := Option.bind_eq_some_iff.1 hitem
        exact ⟨call, x, item, rfl, hh, hx, hitem, by rw [hc]; rfl⟩
      · rintro ⟨_, x, item, heq, hh, hx, hitem, hc⟩
        cases heq
        refine ⟨hh, ?_⟩
        rw [hx, Option.bind_some, hitem, Option.bind_some]
        exact hc
  | _ => simp [Act.starts]

/-- The latest request after one more act: the one that the act starts, or else the one before,
unless the act releases the holder. -/
theorem latestRequest_concat :
    LatestRequest h s (as ++ [a]) call ↔
      (a = .openRequest call ∧ a.starts (s.acts as) h) ∨
        LatestRequest h s as call ∧ a.resets h = false ∧ a.starts (s.acts as) h = false := by
  constructor
  · rintro ⟨bs, cs, heq, hstarts, hcs⟩
    rcases List.eq_nil_or_concat cs with rfl | ⟨cs, b, rfl⟩
    · obtain ⟨rfl, hlast⟩ := List.append_inj' heq rfl
      obtain rfl := List.singleton_inj.1 hlast
      exact .inl ⟨rfl, hstarts⟩
    · rw [List.concat_eq_append, ← List.cons_append, ← List.append_assoc] at heq
      obtain ⟨rfl, hlast⟩ := List.append_inj' heq rfl
      obtain rfl := List.singleton_inj.1 hlast
      rw [List.concat_eq_append, unasked_append, ← acts_append, List.append_assoc,
        List.singleton_append] at hcs
      exact .inr ⟨⟨bs, cs, rfl, hstarts, hcs.1⟩, hcs.2.1⟩
  · rintro (⟨rfl, hstarts⟩ | ⟨⟨bs, cs, rfl, hstarts, hcs⟩, hkept⟩)
    · exact ⟨as, [], rfl, hstarts, trivial⟩
    · refine ⟨bs, cs ++ [a], by rw [List.append_assoc, List.cons_append], hstarts, ?_⟩
      rw [unasked_append, ← acts_append, List.append_assoc, List.singleton_append]
      exact ⟨hcs, hkept, trivial⟩

theorem exists_of_latestRequest (hl : LatestRequest h s as call) :
    call.holder = h ∧ ∃ x, (s.acts as).holders[h]? = some x := by
  obtain ⟨bs, cs, rfl, hstarts, -⟩ := hl
  obtain ⟨_, x, item, heq, hh, hx, -⟩ := starts_iff.1 hstarts
  cases heq
  refine ⟨hh, ?_⟩
  rw [acts_append]
  exact acts_induction (P := fun s => ∃ x, s.holders[h]? = some x)
    (fun s a ⟨x, hx⟩ => ⟨_, s.holders_act a hx⟩) ⟨x, hx⟩ _

/-! ## The constraints that a holder keeps -/

/-- What an act makes of the constraints requested last. -/
theorem requested_onHolder_eq (hx : s.holders[h]? = some x) :
    (a.onHolder s h x).state.requested =
      match a with
      | .openRequest call => if a.starts s h then some call.bounds else x.state.requested
      | _ => if a.resets h then none else x.state.requested := by
  cases a with
  | openRequest call =>
      have hstarts : (Act.openRequest call).starts s h ↔
          call.holder = h ∧ (x.state.item.bind (·.value.component?)).isSome := by
        rw [Act.starts, decide_eq_true_eq, hx, Option.bind_some]
      simp only [Act.onHolder, hstarts]
      split <;> rfl
  | reset k =>
      simp only [Act.onHolder, Act.resets, decide_eq_true_eq]
      split <;> rfl
  | change | evict | claimTree =>
      simp only [Act.onHolder, Act.resets, Bool.false_eq_true, if_false]
      split <;> simp
  | _ =>
      simp only [Act.onHolder, Act.resets, Bool.false_eq_true, if_false]
      try split
      all_goals rfl

/-- A holder keeps the constraints of the latest request, and none if there was none. -/
theorem requested_iff_latestRequest (hs : s.holders = []) {bounds : Bounds}
    (hx : (s.acts as).holders[h]? = some x) :
    x.state.requested = some bounds ↔
      ∃ call, LatestRequest h s as call ∧ call.bounds = bounds := by
  induction as using List.reverseRecOn generalizing x with
  | nil =>
      rw [acts_nil, hs] at hx
      cases hx
  | append_singleton as a ih =>
      rw [acts_append] at hx
      simp only [latestRequest_concat]
      cases hbefore : (s.acts as).holders[h]? with
      | none =>
          -- a new holder, of which nothing was requested before
          obtain ⟨p, item, policy, factory, rfl, -, -, rfl⟩ :=
            (s.acts as).of_getElem?_act hbefore hx
          refine ⟨fun hr => (nomatch hr), ?_⟩
          rintro ⟨call, ⟨heq, -⟩ | ⟨hl, -⟩, -⟩
          · cases heq
          · obtain ⟨-, x, hx⟩ := exists_of_latestRequest hl
            rw [hbefore] at hx
            cases hx
      | some x₀ =>
          obtain rfl := Option.some.inj (((s.acts as).holders_act a hbefore).symm.trans hx)
          rw [requested_onHolder_eq hbefore]
          cases hstarts : a.starts (s.acts as) h with
          | true =>
              obtain ⟨call, -, -, rfl, -⟩ := starts_iff.1 hstarts
              simp
          | false =>
              have hkept : a.resets h = false → (x₀.state.requested = some bounds ↔
                  ∃ call, ((a = .openRequest call ∧ false = true) ∨
                    LatestRequest h s as call ∧ a.resets h = false ∧ false = false) ∧
                      call.bounds = bounds) := fun hr => by
                rw [ih hbefore]
                simp [hr]
              cases a with
              | openRequest call => exact hkept rfl
              | reset k =>
                  cases hr : (Act.reset k).resets h with
                  | true => simp
                  | false => simpa only [hr, Bool.false_eq_true, if_false] using hkept hr
              | _ => exact hkept rfl

/-! ## The layout that a tree keeps -/

theorem commits?_eq_none_iff : a.commits? t = none ↔ a.settles t = false := by
  cases a with
  | settleLayout l size => simp [Act.settles, Act.commits?]
  | _ => exact iff_of_true rfl rfl

theorem lastCommitted?_eq_none_iff :
    lastCommitted? t as = none ↔ ∀ a ∈ as, a.settles t = false := by
  induction as with
  | nil => simp [lastCommitted?]
  | cons a as ih =>
      rw [lastCommitted?, Option.or_eq_none_iff, ih, commits?_eq_none_iff, List.forall_mem_cons,
        and_comm]

theorem lastCommitted?_append :
    lastCommitted? t (as ++ bs) = (lastCommitted? t bs).or (lastCommitted? t as) := by
  induction as with
  | nil => rw [List.nil_append, lastCommitted?, Option.or_none]
  | cons a as ih => rw [List.cons_append, lastCommitted?, lastCommitted?, ih, Option.or_assoc]

theorem lastCommitted?_eq_some_iff :
    lastCommitted? t as = some c ↔ ∃ l, LatestLayout t as l c.size ∧ l.bounds = c.bounds := by
  constructor
  · intro hc
    induction as with
    | nil => cases hc
    | cons a as ih =>
        rw [lastCommitted?, Option.or_eq_some_iff] at hc
        rcases hc with hc | ⟨hnone, hc⟩
        · obtain ⟨l, ⟨bs, cs, rfl, hl⟩, hbounds⟩ := ih hc
          exact ⟨l, ⟨a :: bs, cs, rfl, hl⟩, hbounds⟩
        · cases a with
          | settleLayout l size =>
              rw [Act.commits?] at hc
              split at hc
              · next htree =>
                  obtain rfl := Option.some.inj hc
                  exact ⟨l, ⟨[], as, rfl, htree, lastCommitted?_eq_none_iff.1 hnone⟩, rfl⟩
              · cases hc
          | _ => cases hc
  · rintro ⟨l, ⟨bs, cs, rfl, htree, hcs⟩, hbounds⟩
    rw [lastCommitted?_append, lastCommitted?, lastCommitted?_eq_none_iff.2 hcs, Option.none_or,
      Act.commits?, if_pos htree, Option.some_or, hbounds]

/-- A tree that an act builds is a new one, maybe with a listener. -/
theorem eq_of_tree?_act (hn : s.tree? t = none) (hu : (s.act a).tree? t = some u) :
    ∃ config listener, u = { Tree.ofConfig config with readyListener := listener } := by
  rcases s.of_tree?_act hn hu with ⟨e, config, -, rfl⟩ | ⟨call, item, component, handle, listener,
    rfl, -⟩
  · exact ⟨config, none, rfl⟩
  · by_cases hvacant : ∃ x engine, s.holders[call.holder]? = some x ∧
        s.engines[call.engine]? = some engine ∧ x.generation = handle.generation ∧
        x.state.slot.tree? = none
    · obtain ⟨x, engine, hx, he, hg, ht⟩ := hvacant
      rw [act, s.tree?_claimTree_of_vacant item component listener hx he hg ht, hn,
        Option.none_or] at hu
      split at hu
      · exact ⟨_, _, (Option.some.inj hu).symm⟩
      · cases hu
    · rw [act, s.claimTree_of_not_vacant item component listener
        fun x engine hx he hg ht => hvacant ⟨x, engine, hx, he, hg, ht⟩, hn] at hu
      cases hu

/-- A tree that came to be in a stretch of acts in which none was settled on it has no layout. -/
theorem committed_of_unbuilt (hn : s.tree? t = none) (has : ∀ a ∈ as, a.settles t = false) :
    ((s.acts as).tree? t).bind (·.committed) = none := by
  induction as generalizing s with
  | nil => rw [acts_nil, hn, Option.bind_none]
  | cons a as ih =>
      have hrest : ∀ b ∈ as, b.settles t = false := fun b hb => has b (List.mem_cons_of_mem _ hb)
      cases hu : (s.act a).tree? t with
      | none => exact ih hu hrest
      | some u =>
          obtain ⟨v, hv, hcommitted⟩ := committed_acts hu as
          obtain ⟨config, listener, rfl⟩ := eq_of_tree?_act hn hu
          rw [acts_cons, hv, Option.bind_some, hcommitted, lastCommitted?_eq_none_iff.2 hrest]
          rfl

end Recycler.Store

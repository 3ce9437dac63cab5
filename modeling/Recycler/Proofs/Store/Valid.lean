import Recycler.Proofs.Store.History
import Recycler.Proofs.Store.Supply

/-!
# Valid holders

Which acts declare the layout of a holder valid, where the descriptor of a holder comes from, and
what a tree shows after a layout was settled on it.
-/

namespace Recycler

/-- A holder that is valid has a tree. -/
def Holder.Housed (x : Holder) : Prop := x.state.valid → x.state.slot.tree? ≠ none

namespace Store

variable {s : Store} {h : Nat} {x y : Holder} {a : Act} {as bs : List Act}

/-- Whether an act may declare the layout of a holder valid. -/
def Act.validates (h : Nat) : Act → Bool
  | .commitLayout r _ => r.call.holder = h
  | .confirmLayout r => r.call.holder = h
  | _ => false

/-- Whether an act leaves a holder invalid: an eviction, a release, a new descriptor or a
declaration. -/
def Act.voids (h : Nat) : Act → Bool
  | .change k (.describe _) => k = h
  | .change k .invalidate => k = h
  | .evict k => k = h
  | .reset k => k = h
  | _ => false

theorem Act.resets_eq_false (ha : a.voids h = false) : a.resets h = false := by
  cases a with
  | reset k => exact ha
  | _ => rfl

theorem Act.describes?_eq_none (ha : a.voids h = false) : a.describes? h = none := by
  cases a with
  | change k c =>
      cases c with
      | describe item => exact if_neg (of_decide_eq_false ha)
      | _ => rfl
  | _ => rfl

theorem lastDescribed?_eq_none (has : ∀ a ∈ as, a.voids h = false) :
    lastDescribed? h as = none := by
  induction as with
  | nil => rfl
  | cons a as ih =>
      rw [lastDescribed?, ih fun b hb => has b (List.mem_cons_of_mem _ hb),
        Act.describes?_eq_none (has a List.mem_cons_self), Option.or_none]

theorem not_valid_of_voids (ha : a.voids h) : (a.onHolder s h x).state.valid = false := by
  cases a with
  | change k c =>
      cases c with
      | describe item => rw [Act.onHolder, if_pos (of_decide_eq_true ha)]; rfl
      | invalidate => rw [Act.onHolder, if_pos (of_decide_eq_true ha)]; rfl
      | _ => cases ha
  | evict k => rw [Act.onHolder, if_pos (of_decide_eq_true ha), s.valid_evicted]
  | reset k => rw [Act.onHolder, if_pos (of_decide_eq_true ha)]; rfl
  | _ => cases ha

/-- A holder that is valid without being declared so was valid before, with the same tree. -/
theorem valid_onHolder (hb : x.Housed) (hv : a.validates h = false)
    (hvalid : (a.onHolder s h x).state.valid) :
    x.state.valid ∧ (a.onHolder s h x).state.slot.tree? = x.state.slot.tree? := by
  cases a with
  | acquire p item policy factory =>
      simp only [Act.onHolder] at hvalid ⊢
      split at hvalid
      · next hc =>
          rw [if_pos hc]
          exact ⟨hvalid, rfl⟩
      · next hc =>
          rw [if_neg hc]
          exact ⟨hvalid, rfl⟩
  | change k c =>
      simp only [Act.onHolder] at hvalid ⊢
      split at hvalid
      · next hk =>
          rw [if_pos hk]
          cases c with
          | describe item => cases hvalid
          | invalidate => cases hvalid
          | clearParked =>
              cases hs : x.state.slot <;>
                simp_all [Slot.tree?, Holder.State.change, Holder.State.clearParked]
          | _ => exact ⟨hvalid, rfl⟩
      · next hk =>
          rw [if_neg hk]
          exact ⟨hvalid, rfl⟩
  | evict k =>
      simp only [Act.onHolder] at hvalid ⊢
      split at hvalid
      · rw [s.valid_evicted] at hvalid
        cases hvalid
      · next hk =>
          rw [if_neg hk]
          exact ⟨hvalid, rfl⟩
  | reset k =>
      simp only [Act.onHolder] at hvalid ⊢
      split at hvalid
      · cases hvalid
      · next hk =>
          rw [if_neg hk]
          exact ⟨hvalid, rfl⟩
  | claimTree call item component handle listener =>
      simp only [Act.onHolder] at hvalid ⊢
      split at hvalid
      · next hc =>
          rw [s.valid_supplied] at hvalid
          exact absurd hc.2.2 (hb hvalid)
      · next hc =>
          rw [if_neg hc]
          exact ⟨hvalid, rfl⟩
  | commitLayout r size => simp_all [Act.onHolder, Act.validates]
  | confirmLayout r => simp_all [Act.onHolder, Act.validates]
  | openRequest call =>
      simp only [Act.onHolder] at hvalid ⊢
      split at hvalid
      · next hc =>
          rw [if_pos hc]
          exact ⟨hvalid, rfl⟩
      · next hc =>
          rw [if_neg hc]
          exact ⟨hvalid, rfl⟩
  | advance | setReadyListener | writeHeight =>
      simp only [Act.onHolder] at hvalid ⊢
      split <;> simp_all
  | _ => exact ⟨hvalid, rfl⟩

theorem valid_acts (hx : s.holders[h]? = some x) (hb : x.Housed)
    (hv : ∀ a ∈ as, a.validates h = false) (hy : (s.acts as).holders[h]? = some y)
    (hvalid : y.state.valid) :
    x.state.valid ∧ y.state.slot.tree? = x.state.slot.tree? ∧ ∀ a ∈ as, a.voids h = false := by
  induction as generalizing s x with
  | nil =>
      obtain rfl := Option.some.inj (hx.symm.trans hy)
      exact ⟨hvalid, rfl, fun a ha => nomatch ha⟩
  | cons a as ih =>
      have hstep := valid_onHolder hb (hv a List.mem_cons_self) (s := s)
      have hb' : (a.onHolder s h x).Housed := fun hvalid => by
        obtain ⟨hvalid, htree⟩ := hstep hvalid
        rw [htree]
        exact hb hvalid
      obtain ⟨hvalid', htree, hlater⟩ := ih (s.holders_act a hx) hb'
        (fun b hb => hv b (List.mem_cons_of_mem _ hb)) hy
      obtain ⟨hvalid, htree'⟩ := hstep hvalid'
      refine ⟨hvalid, htree.trans htree', fun b hmem => ?_⟩
      rcases List.mem_cons.1 hmem with rfl | hmem
      · rw [← Bool.not_eq_true]
        intro hvoids
        rw [not_valid_of_voids hvoids] at hvalid'
        cases hvalid'
      · exact hlater b hmem

/-- Holders are added only when an item acquires one. -/
theorem exists_of_acts (hnone : ∀ p item policy factory, .acquire p item policy factory ∉ as)
    (hy : (s.acts as).holders[h]? = some y) : ∃ x, s.holders[h]? = some x := by
  induction as generalizing s with
  | nil => exact ⟨y, hy⟩
  | cons a as ih =>
      obtain ⟨x, hx⟩ := ih (fun p item policy factory ha =>
        hnone p item policy factory (List.mem_cons_of_mem _ ha)) hy
      cases hold : s.holders[h]? with
      | some z => exact ⟨z, rfl⟩
      | none =>
          obtain ⟨p, item, policy, factory, rfl, -⟩ := s.of_getElem?_act hold hx
          exact absurd List.mem_cons_self (hnone p item policy factory)

/-! ## Acts that declare a layout out of date -/

/-- A holder keeps the constraints of its latest request, or gets others, until it is released. -/
theorem requested_onHolder (hr : a.resets h = false) (hx : x.state.requested.isSome) :
    (a.onHolder s h x).state.requested.isSome := by
  cases a with
  | reset k => rwa [Act.onHolder, if_neg (of_decide_eq_false hr)]
  | change | evict | claimTree =>
      rw [Act.onHolder]
      split <;> simpa using hx
  | openRequest call =>
      rw [Act.onHolder]
      split
      · rfl
      · exact hx
  | _ =>
      simp only [Act.onHolder]
      try split
      all_goals exact hx

theorem requested_acts (hx : s.holders[h]? = some x) (hr : ∀ a ∈ as, a.resets h = false)
    (hreq : x.state.requested.isSome) :
    ∃ y, (s.acts as).holders[h]? = some y ∧ y.state.requested.isSome := by
  induction as generalizing s x with
  | nil => exact ⟨x, hx, hreq⟩
  | cons a as ih =>
      exact ih (s.holders_act a hx) (fun b hb => hr b (List.mem_cons_of_mem _ hb))
        (requested_onHolder (hr a List.mem_cons_self) hreq)

/-- A holder that has a tree was asked for a layout. -/
def Asked (s : Store) : Prop :=
  ∀ (h : Nat) (x : Holder), s.holders[h]? = some x → x.state.slot.tree? ≠ none →
    x.state.requested.isSome

theorem Asked.act (hs : s.Asked) (ha : ∀ h x, (a.supplies? s h).isSome →
    s.holders[h]? = some x → x.state.requested.isSome) : (s.act a).Asked := by
  intro h y hy ht
  rw [← (s.act a).live?_eq hy] at ht
  cases hx : s.holders[h]? with
  | none =>
      obtain ⟨p, item, policy, factory, -, -, -, rfl⟩ := s.of_getElem?_act hx hy
      exact absurd ((s.act a).live?_eq hy) ht
  | some x =>
      obtain rfl := Option.some.inj ((s.holders_act a hx).symm.trans hy)
      have hr : a.resets h = false := by
        rw [← Bool.not_eq_true]
        intro hr
        rw [Act.eq_of_resets hr] at ht
        exact ht (s.live?_reset h)
      refine requested_onHolder hr ?_
      cases hl : s.live? h with
      | some t =>
          refine hs h x hx ?_
          rw [← s.live?_eq hx, hl]
          exact Option.some_ne_none t
      | none =>
          refine ha h x ?_ hx
          rw [live?_act_of_none hl] at ht
          rw [← Option.isSome_map (f := (·.2))]
          exact Option.isSome_iff_ne_none.2 ht

theorem Asked.acts (hs : s.Asked) (ha : ∀ (bs : List Act) (a : Act) (cs : List Act),
    as = bs ++ a :: cs → ∀ h x, (a.supplies? (s.acts bs) h).isSome →
      (s.acts bs).holders[h]? = some x → x.state.requested.isSome) : (s.acts as).Asked := by
  induction as generalizing s with
  | nil => exact hs
  | cons a as ih =>
      refine ih (hs.act (ha [] a as rfl)) fun bs b cs has => ?_
      exact ha (a :: bs) b cs (by rw [has]; rfl)

/-! ## Descriptors -/

theorem of_gives? {item : Shared Descriptor} (ha : a.gives? s h = some item) :
    a.describes? h = some item ∨ ∃ p policy factory, a = .acquire p item policy factory := by
  cases a with
  | acquire p item' policy factory =>
      simp only [Act.gives?] at ha
      split at ha
      · obtain rfl := Option.some.inj ha
        exact .inr ⟨p, policy, factory, rfl⟩
      · cases ha
  | _ => exact .inl ha

/-- A holder's descriptor was its own before, or has just been given to it. -/
theorem item_of_act {item : Shared Descriptor} (hy : (s.act a).holders[h]? = some y)
    (hi : y.state.item = some item) :
    (∃ x, s.holders[h]? = some x ∧ x.state.item = some item) ∨ a.describes? h = some item ∨
      ∃ p policy factory, a = .acquire p item policy factory := by
  cases hx : s.holders[h]? with
  | none =>
      obtain ⟨p, item', policy, factory, rfl, -, -, rfl⟩ := s.of_getElem?_act hx hy
      obtain rfl := Option.some.inj hi
      exact .inr (.inr ⟨p, policy, factory, rfl⟩)
  | some x =>
      obtain rfl := Option.some.inj ((s.holders_act a hx).symm.trans hy)
      cases hr : a.resets h with
      | true =>
          rw [Act.eq_of_resets hr, Act.onHolder, if_pos rfl] at hi
          cases hi
      | false =>
          rw [item_onHolder hr, Option.or_eq_some_iff] at hi
          rcases hi with hi | ⟨-, hi⟩
          · exact .inr (of_gives? hi)
          · exact .inl ⟨x, rfl, hi⟩

theorem item_of_acts {item : Shared Descriptor} (hy : (s.acts as).holders[h]? = some y)
    (hi : y.state.item = some item) :
    (∃ x, s.holders[h]? = some x ∧ x.state.item = some item) ∨
      ∃ a ∈ as, a.describes? h = some item ∨
        ∃ p policy factory, a = .acquire p item policy factory := by
  induction as generalizing s with
  | nil => exact .inl ⟨y, hy, hi⟩
  | cons a as ih =>
      rcases ih hy with ⟨x, hx, hxi⟩ | ⟨b, hb, hbi⟩
      · rcases item_of_act hx hxi with hx | ha
        · exact .inl hx
        · exact .inr ⟨a, List.mem_cons_self, ha⟩
      · exact .inr ⟨b, List.mem_cons_of_mem _ hb, hbi⟩

/-! ## Trees -/

/-- Whether an act settles a layout on a tree. -/
def Act.settles (t : TreeRef) : Act → Bool
  | .settleLayout l _ => l.tree = t
  | _ => false

theorem shown_onTree {t : TreeRef} {u : Tree} (ha : a.settles t = false) :
    (a.onTree s t u).root = u.root ∧ (a.onTree s t u).committed = u.committed := by
  cases a with
  | settleLayout l size => simp_all [Act.onTree, Act.settles]
  | changeTree v c =>
      rw [Act.onTree]
      split
      · cases c <;> exact ⟨rfl, rfl⟩
      · exact ⟨rfl, rfl⟩
  | evict | reset | setReadyListener | reportWindow =>
      unfold Act.onTree
      dsimp only
      split <;> exact ⟨rfl, rfl⟩
  | _ => exact ⟨rfl, rfl⟩

/-- A tree shows what it showed, or the root of a layout that was settled on it. -/
theorem shown_acts {t : TreeRef} {u : Tree} (hu : s.tree? t = some u) (as : List Act) :
    ∃ v, (s.acts as).tree? t = some v ∧
      ((v.root = u.root ∧ v.committed = u.committed) ∨
        ∃ l size, .settleLayout l size ∈ as ∧ l.tree = t ∧ v.root = l.root ∧
          v.committed.isSome) := by
  induction as generalizing s u with
  | nil => exact ⟨u, hu, .inl ⟨rfl, rfl⟩⟩
  | cons a as ih =>
      obtain ⟨v, hv, hshown⟩ := ih (s.tree?_act a hu)
      refine ⟨v, hv, ?_⟩
      rcases hshown with ⟨hroot, hcommitted⟩ | ⟨l, size, hl, hrest⟩
      · cases ha : a.settles t with
        | false =>
            obtain ⟨hroot', hcommitted'⟩ := shown_onTree (s := s) (u := u) ha
            exact .inl ⟨hroot.trans hroot', hcommitted.trans hcommitted'⟩
        | true =>
            cases a with
            | settleLayout l size =>
                have htree : l.tree = t := of_decide_eq_true ha
                rw [Act.onTree, if_pos htree] at hroot hcommitted
                refine .inr ⟨l, size, List.mem_cons_self, htree, hroot, ?_⟩
                rw [hcommitted]
                rfl
            | _ => cases ha
      · exact .inr ⟨l, size, List.mem_cons_of_mem _ hl, hrest⟩

/-- A tree has a layout since one was settled on it, and shows the root of that one or of a layout
settled later. -/
theorem shown_of_settled {l : Layout} (size : Size) (hl : s.Built l.tree) (bs cs : List Act) :
    ∃ v, (s.acts (bs ++ .settleLayout l size :: cs)).tree? l.tree = some v ∧
      v.committed.isSome ∧ (v.root = l.root ∨
        ∃ l' size', .settleLayout l' size' ∈ cs ∧ l'.tree = l.tree ∧ v.root = l'.root) := by
  have hbuilt : (s.acts bs).Built l.tree :=
    acts_induction (P := (·.Built l.tree)) (fun s a hb => hb.act s a) hl bs
  obtain ⟨u, hu⟩ := (s.acts bs).built_iff.1 hbuilt
  have hsettled := (s.acts bs).tree?_act (.settleLayout l size) hu
  rw [Act.onTree, if_pos rfl] at hsettled
  rw [acts_append, acts_cons]
  obtain ⟨v, hv, ⟨hroot, hcommitted⟩ | ⟨l', size', hl', htree, hroot, hcommitted⟩⟩ :=
    shown_acts hsettled cs
  · refine ⟨v, hv, ?_, .inl hroot⟩
    rw [hcommitted]
    rfl
  · exact ⟨v, hv, hcommitted, .inr ⟨l', size', hl', htree, hroot⟩⟩

end Store

end Recycler

import Recycler.Proofs.Store.Handle

/-!
# What happened to a holder

A list of acts as the history of a holder: whether it lost a tree (`Loses`), which descriptor it was
given last (`lastGiven?`), be it in place of its own (`lastDescribed?`) or by an item that acquired
it anew (`Unoffered` if none did). From these one reads off whether a layout that was begun before
is still a layout of the holder (`isCurrent_acts_iff`).
-/

namespace Recycler.Store

/-- The descriptor that an act gives to a holder in place of its own. -/
def Act.describes? (h : Nat) : Act → Option (Shared Descriptor)
  | .change k (.describe item) => if k = h then some item else none
  | _ => none

/-- The descriptor that a holder was given last. -/
def lastDescribed? (h : Nat) : List Act → Option (Shared Descriptor)
  | [] => none
  | a :: as => (lastDescribed? h as).or (a.describes? h)

/-- The descriptor that an act gives to a holder, be it that an item acquires the holder. -/
def Act.gives? (s : Store) (h : Nat) : Act → Option (Shared Descriptor)
  | .acquire p item _ _ => if s.offered? p = some h then some item else none
  | a => a.describes? h

/-- The descriptor that a holder was given last, be it by an item that acquired the holder. -/
def lastGiven? (h : Nat) (s : Store) : List Act → Option (Shared Descriptor)
  | [] => none
  | a :: as => (lastGiven? h (s.act a) as).or (a.gives? s h)

/-- Whether a holder was evicted or released at a time when it had a certain tree. -/
def Loses (h : Nat) (t : TreeRef) (s : Store) : List Act → Prop
  | [] => False
  | a :: as => (s.live? h = some t ∧ a.vacates h) ∨ Loses h t (s.act a) as

instance decidableLoses (h : Nat) (t : TreeRef) :
    (s : Store) → (as : List Act) → Decidable (Loses h t s as)
  | _, [] => inferInstanceAs (Decidable False)
  | s, a :: as =>
    have := decidableLoses h t (s.act a) as
    inferInstanceAs (Decidable ((s.live? h = some t ∧ a.vacates h) ∨ Loses h t (s.act a) as))

/-- A request is about what its holder has still: the holder did not lose the tree, and was given no
other descriptor last. -/
def Upholds (r : Request) (s : Store) (as : List Act) : Prop :=
  ¬ Loses r.call.holder r.tree s as ∧
    ∀ item ∈ lastDescribed? r.call.holder as, item.same r.item

instance (r : Request) (s : Store) (as : List Act) : Decidable (Upholds r s as) :=
  inferInstanceAs (Decidable (_ ∧ _))

/-- No item acquires a holder. -/
def Unoffered (h : Nat) (s : Store) : List Act → Prop
  | [] => True
  | a :: as => a.acquires s h = false ∧ Unoffered h (s.act a) as

variable {s : Store} {h : Nat} {t : TreeRef} {as bs : List Act}

theorem unoffered_append :
    Unoffered h s (as ++ bs) ↔ Unoffered h s as ∧ Unoffered h (s.acts as) bs := by
  induction as generalizing s with
  | nil => exact (and_iff_right trivial).symm
  | cons a as ih => rw [List.cons_append, Unoffered, Unoffered, ih, and_assoc, acts_cons]

theorem unoffered_of_no_acquire (s : Store) (h : Nat)
    (hnone : ∀ p item policy factory, .acquire p item policy factory ∉ as) : Unoffered h s as := by
  induction as generalizing s with
  | nil => trivial
  | cons a as ih =>
      refine ⟨s.acquires_eq_false h fun p item policy factory ha => ?_,
        ih (s.act a) fun p item policy factory ha =>
          hnone p item policy factory (List.mem_cons_of_mem _ ha)⟩
      exact hnone p item policy factory (ha ▸ List.mem_cons_self)

theorem loses_append : Loses h t s (as ++ bs) ↔ Loses h t s as ∨ Loses h t (s.acts as) bs := by
  induction as generalizing s with
  | nil => exact (or_iff_right id).symm
  | cons a as ih => rw [List.cons_append, Loses, Loses, ih, or_assoc, acts_cons]

/-! ## The descriptor -/

theorem gives?_of_not_acquires {a : Act} (ha : a.acquires s h = false) :
    a.gives? s h = a.describes? h := by
  cases a with
  | acquire p item policy factory => exact if_neg (of_decide_eq_false ha)
  | _ => rfl

theorem lastGiven?_eq_lastDescribed? (hu : Unoffered h s as) :
    lastGiven? h s as = lastDescribed? h as := by
  induction as generalizing s with
  | nil => rfl
  | cons a as ih => rw [lastGiven?, lastDescribed?, ih hu.2, gives?_of_not_acquires hu.1]

theorem lastGiven?_append :
    lastGiven? h s (as ++ bs) = (lastGiven? h (s.acts as) bs).or (lastGiven? h s as) := by
  induction as generalizing s with
  | nil => exact (Option.or_none).symm
  | cons a as ih => rw [List.cons_append, lastGiven?, lastGiven?, ih, Option.or_assoc, acts_cons]

theorem item_onHolder {x : Holder} {a : Act} (hr : a.resets h = false) :
    (a.onHolder s h x).state.item = (a.gives? s h).or x.state.item := by
  cases a with
  | acquire p item policy factory =>
      simp only [Act.onHolder, Act.gives?]
      split <;> rfl
  | reset k => simp_all [Act.onHolder, Act.resets, Act.gives?, Act.describes?]
  | change k c =>
      simp only [Act.onHolder, Act.gives?, Act.describes?]
      by_cases hk : k = h
      · cases c with
        | clearParked =>
            obtain ⟨slot, heq⟩ := x.state.clearParked_eq
            simp [hk, Holder.State.change, heq]
        | _ => simp [hk, Holder.State.change, Holder.State.describe, Holder.State.invalidate]
      · cases c <;> simp [hk]
  | evict | claimTree =>
      simp only [Act.onHolder, Act.gives?, Act.describes?, Option.none_or]
      split <;> simp
  | _ =>
      simp only [Act.onHolder, Act.gives?, Act.describes?, Option.none_or]
      try split
      all_goals rfl

/-- A holder that is not released has the descriptor that it was given last. -/
theorem item_acts {x : Holder} (hx : s.holders[h]? = some x)
    (hr : ∀ a ∈ as, a.resets h = false) :
    ∃ y, (s.acts as).holders[h]? = some y ∧
      y.state.item = (lastGiven? h s as).or x.state.item := by
  induction as generalizing s x with
  | nil => exact ⟨x, hx, rfl⟩
  | cons a as ih =>
      obtain ⟨y, hy, hitem⟩ := ih (s.holders_act a hx) fun b hb => hr b (List.mem_cons_of_mem _ hb)
      refine ⟨y, hy, ?_⟩
      rw [hitem, item_onHolder (hr a List.mem_cons_self), lastGiven?, Option.or_assoc]

theorem exists_of_lastDescribed? {item : Shared Descriptor} (hd : lastDescribed? h as = some item) :
    ∃ a ∈ as, a.describes? h = some item := by
  induction as with
  | nil => cases hd
  | cons a as ih =>
      rw [lastDescribed?, Option.or_eq_some_iff] at hd
      rcases hd with hd | ⟨-, hd⟩
      · obtain ⟨b, hb, hd⟩ := ih hd
        exact ⟨b, List.mem_cons_of_mem _ hb, hd⟩
      · exact ⟨a, List.mem_cons_self, hd⟩

/-! ## The tree -/

/-- A holder that does not lose its tree has it still, and was not released. -/
theorem live?_acts_of_not_loses (hl : s.live? h = some t) (hn : ¬ Loses h t s as) :
    (s.acts as).live? h = some t ∧ ∀ a ∈ as, a.resets h = false := by
  induction as generalizing s with
  | nil => exact ⟨hl, fun a ha => nomatch ha⟩
  | cons a as ih =>
      have hv : a.vacates h = false := by
        rw [← Bool.not_eq_true]
        exact fun hv => hn (.inl ⟨hl, hv⟩)
      have hstep := s.live?_act_of_live a hl
      rw [hv, if_neg Bool.false_ne_true] at hstep
      obtain ⟨hlive, hresets⟩ := ih hstep fun hlater => hn (.inr hlater)
      refine ⟨hlive, fun b hb => ?_⟩
      rcases List.mem_cons.1 hb with rfl | hb
      · rw [← Bool.not_eq_true]
        intro hr
        rw [Act.vacates_of_resets hr] at hv
        cases hv
      · exact hresets b hb

/-- A tree that a holder lost is never the holder's again. -/
theorem live?_acts_of_loses (ho : s.Owned) (hl : Loses h t s as) :
    (s.acts as).live? h ≠ some t := by
  induction as generalizing s with
  | nil => exact hl.elim
  | cons a as ih =>
      rcases hl with ⟨hlive, hv⟩ | hl
      · have hparted : (s.act a).Parted h t := ho.retired hlive hv h
        exact (acts_induction (P := (·.Parted h t)) (fun s a hp => hp.act a) hparted as).2
      · exact ih (ho.act a) hl

/-! ## Both -/

/-- A request that is about what its holder has. -/
theorem live?_of_isCurrent {r : Request} (hc : s.isCurrent r) :
    s.live? r.call.holder = some r.tree ∧ ∃ x item, s.holders[r.call.holder]? = some x ∧
      x.state.item = some item ∧ item.same r.item := by
  unfold isCurrent at hc
  split at hc
  · next x hx =>
      obtain ⟨htree, item, hitem, hsame⟩ := Holder.State.isCurrent_iff.1 hc
      exact ⟨(s.live?_eq hx).trans htree, x, item, hx, hitem, hsame⟩
  · cases hc

/-- A layout made for a holder's descriptor, on a tree that the holder had afterwards without being
released before, is one of the holder still exactly if the acts uphold it. -/
theorem isCurrent_acts_iff (ho : s.Owned) {r : Request} {x : Holder}
    (hx : s.holders[r.call.holder]? = some x) (hitem : x.state.item = some r.item)
    (hu : Unoffered r.call.holder s (as ++ bs)) (hr : ∀ a ∈ as, a.resets r.call.holder = false)
    (hl : (s.acts as).live? r.call.holder = some r.tree) :
    (s.acts (as ++ bs)).isCurrent r ↔ Upholds r s (as ++ bs) := by
  have ho' : (s.acts as).Owned := acts_induction (fun s a ho => ho.act a) ho as
  have hbefore : ¬ Loses r.call.holder r.tree s as := fun hloses => live?_acts_of_loses ho hloses hl
  by_cases hloses : Loses r.call.holder r.tree (s.acts as) bs
  · -- the tree is gone for good
    have hgone := live?_acts_of_loses ho' hloses
    rw [← acts_append] at hgone
    refine iff_of_false (fun hcurrent => ?_) fun hkept => hkept.1 (loses_append.2 (.inr hloses))
    exact hgone (live?_of_isCurrent hcurrent).1
  · obtain ⟨hlive, hresets⟩ := live?_acts_of_not_loses hl hloses
    rw [← acts_append] at hlive
    have hnone : ∀ a ∈ as ++ bs, a.resets r.call.holder = false := fun a ha =>
      (List.mem_append.1 ha).elim (hr a) (hresets a)
    obtain ⟨y, hy, hitem'⟩ := item_acts hx hnone
    rw [lastGiven?_eq_lastDescribed? hu] at hitem'
    have hkept : ¬ Loses r.call.holder r.tree s (as ++ bs) := fun h =>
      (loses_append.1 h).elim hbefore hloses
    rw [live?_eq _ hy] at hlive
    rw [isCurrent_eq _ hy, Holder.State.isCurrent, decide_eq_true hlive, Bool.true_and, hitem',
      hitem, Upholds, and_iff_right hkept]
    cases lastDescribed? r.call.holder (as ++ bs) with
    | none => simp
    | some item => simp

end Recycler.Store

import Recycler.Proofs.Store.Tree

/-!
# Weak handles

A weak handle names a generation of its holder. Generations only grow, and a release starts a new
one, so a handle that was made before a release is stale ever after.
-/

namespace Recycler.Store

variable (s : Store)

/-- A handle is of its holder's generation or of an earlier one. -/
def Issued (w : WeakHandle) : Prop :=
  ∃ x, s.holders[w.holder]? = some x ∧ w.generation ≤ x.generation

/-- The holder was released since a handle was made. -/
def Stale (w : WeakHandle) : Prop :=
  ∃ x, s.holders[w.holder]? = some x ∧ w.generation < x.generation

/-- Whether an act releases a holder. -/
def Act.resets (h : Nat) : Act → Bool
  | .reset k => k = h
  | _ => false

/-- The holder that an act is about, the one that an item acquires apart. -/
def Act.subject? : Act → Option Nat
  | .change h _ => some h
  | .advance h _ => some h
  | .evict h => some h
  | .reset h => some h
  | .setReadyListener h _ => some h
  | .openRequest call => some call.holder
  | .claimTree call .. => some call.holder
  | .commitLayout r _ => some r.call.holder
  | .confirmLayout r => some r.call.holder
  | .writeHeight w _ => some w.holder
  | _ => none

/-- Whether an act hands a holder to an item. -/
def Act.acquires (s : Store) (h : Nat) : Act → Bool
  | .acquire p .. => s.offered? p = some h
  | _ => false

theorem Act.vacates_of_resets {h : Nat} {a : Act} (ha : a.resets h) : a.vacates h := by
  cases a with
  | reset k => exact ha
  | _ => cases ha

theorem Act.eq_of_resets {h : Nat} {a : Act} (ha : a.resets h) : a = .reset h := by
  cases a with
  | reset k =>
      obtain rfl : k = h := of_decide_eq_true ha
      rfl
  | _ => cases ha

theorem acquires_eq_false {a : Act} (h : Nat)
    (ha : ∀ p item policy factory, a ≠ .acquire p item policy factory) :
    a.acquires s h = false := by
  cases a with
  | acquire p item policy factory => exact absurd rfl (ha p item policy factory)
  | _ => rfl

/-- An act leaves alone every holder that it is not about. -/
theorem onHolder_of_ne {k : Nat} {a : Act} (x : Holder) (hs : a.subject? ≠ some k)
    (ha : a.acquires s k = false) : a.onHolder s k x = x := by
  cases a with
  | acquire p item policy factory => simp_all [Act.onHolder, Act.acquires]
  | _ => simp_all [Act.onHolder, Act.subject?]

theorem holders_acts_of_ne {k : Nat} {as : List Act} {x : Holder} (hx : s.holders[k]? = some x)
    (hs : ∀ a ∈ as, a.subject? ≠ some k) (ha : ∀ a ∈ as, ∀ t, a.acquires t k = false) :
    (s.acts as).holders[k]? = some x := by
  induction as generalizing s with
  | nil => exact hx
  | cons a as ih =>
      have hkept := s.holders_act a hx
      rw [s.onHolder_of_ne x (hs a List.mem_cons_self) (ha a List.mem_cons_self s)] at hkept
      exact ih (s.act a) hkept (fun b hb => hs b (List.mem_cons_of_mem _ hb))
        (fun b hb => ha b (List.mem_cons_of_mem _ hb))

theorem generation_onHolder (a : Act) (k : Nat) (x : Holder) :
    (a.onHolder s k x).generation = if a.resets k then x.generation + 1 else x.generation := by
  cases a with
  | reset h =>
      simp only [Act.onHolder, Act.resets, decide_eq_true_eq]
      split <;> rfl
  | _ =>
      simp only [Act.onHolder, Act.resets]
      try split
      all_goals rfl

theorem home_onHolder (a : Act) (k : Nat) (x : Holder) :
    (a.onHolder s k x).home = x.home := by
  cases a with
  | _ =>
      simp only [Act.onHolder]
      try split
      all_goals rfl

theorem generation_le_onHolder (a : Act) (k : Nat) (x : Holder) :
    x.generation ≤ (a.onHolder s k x).generation := by
  rw [generation_onHolder]
  split <;> omega

/-- The generation counts the releases. -/
theorem generation_acts {k : Nat} {x y : Holder} (as : List Act) (hx : s.holders[k]? = some x)
    (hy : (s.acts as).holders[k]? = some y) :
    y.generation = x.generation + as.countP (Act.resets k) := by
  induction as generalizing s x with
  | nil => rw [Option.some.inj (hx.symm.trans hy), List.countP_nil, Nat.add_zero]
  | cons a as ih =>
      rw [ih (s.act a) (s.holders_act a hx) hy, generation_onHolder, List.countP_cons]
      split <;> omega

variable {s} {w : WeakHandle}

theorem Issued.act (h : s.Issued w) (a : Act) : (s.act a).Issued w := by
  obtain ⟨x, hx, hw⟩ := h
  exact ⟨_, s.holders_act a hx, Nat.le_trans hw (s.generation_le_onHolder a _ x)⟩

theorem Stale.act (h : s.Stale w) (a : Act) : (s.act a).Stale w := by
  obtain ⟨x, hx, hw⟩ := h
  exact ⟨_, s.holders_act a hx, Nat.lt_of_lt_of_le hw (s.generation_le_onHolder a _ x)⟩

/-- A release makes every handle stale that was made before. -/
theorem Issued.stale_of_resets (h : s.Issued w) {a : Act} (ha : a.resets w.holder) :
    (s.act a).Stale w := by
  obtain ⟨x, hx, hw⟩ := h
  refine ⟨_, s.holders_act a hx, ?_⟩
  rw [generation_onHolder, if_pos ha]
  omega

theorem issued_downgrade {h : Nat} {x : Holder} (hx : s.holders[h]? = some x) :
    s.Issued (x.downgrade h) := ⟨x, hx, Nat.le_refl x.generation⟩

theorem Issued.lt (h : s.Issued w) : w.holder < s.holders.length := by
  obtain ⟨x, hx, -⟩ := h
  exact (List.getElem?_eq_some_iff.1 hx).1

theorem Stale.isOfGeneration (h : s.Stale w) : s.isOfGeneration w = false := by
  obtain ⟨x, hx, hw⟩ := h
  rw [s.isOfGeneration_eq hx, decide_eq_false_iff_not]
  omega

theorem Stale.writeHeight (h : s.Stale w) (height : Int32) : s.writeHeight w height = s := by
  rw [Store.writeHeight, h.isOfGeneration]
  rfl

/-- A claim through a stale handle changes nothing. -/
theorem Stale.claimTree (h : s.Stale w) {call : Call} (hc : w.holder = call.holder)
    (item : Shared Descriptor) (component : Component) (listener : Option MeasureListener) :
    s.claimTree call item component w listener = (s, .stale) := by
  obtain ⟨x, hx, hw⟩ := h
  rw [hc] at hx
  have hg : x.generation ≠ w.generation := Nat.ne_of_gt hw
  unfold Store.claimTree
  rw [hx]
  split
  · next y engine hy _ =>
      obtain rfl := Option.some.inj hy
      rw [if_neg hg]
  · rfl

end Recycler.Store

/-!
# Sums over lists

The references to a holder are counted thread by thread, the turns of a churn worker by worker. Here
is what is needed of such a sum, which is written as `Session.references` has it, and of the
question whether any thread has something.
-/

namespace Recycler

variable {α : Type} {g : α → Nat} {f : α → α} {as : List α} {a : α} {c d i n : Nat}

theorem le_sum_of_mem (g : α → Nat) (ha : a ∈ as) : g a ≤ as.foldr (fun a n => g a + n) 0 := by
  induction as with
  | nil => cases ha
  | cons b as ih =>
      rw [List.foldr_cons]
      rcases List.mem_cons.1 ha with rfl | ha
      · exact Nat.le_add_right _ _
      · exact Nat.le_trans (ih ha) (Nat.le_add_left _ _)

theorem exists_pos_of_sum_pos (hpos : 0 < as.foldr (fun a n => g a + n) 0) :
    ∃ a ∈ as, 0 < g a := by
  induction as with
  | nil => cases hpos
  | cons a as ih =>
      rw [List.foldr_cons] at hpos
      by_cases ha : 0 < g a
      · exact ⟨a, List.mem_cons_self, ha⟩
      · obtain ⟨b, hb, hpos⟩ := ih (by omega)
        exact ⟨b, List.mem_cons_of_mem _ hb, hpos⟩

theorem sum_eq_of_forall (hg : ∀ a ∈ as, g a = n) :
    as.foldr (fun a n => g a + n) 0 = as.length * n := by
  induction as with
  | nil => exact (Nat.zero_mul n).symm
  | cons a as ih =>
      rw [List.foldr_cons, ih fun b hb => hg b (List.mem_cons_of_mem _ hb),
        hg a List.mem_cons_self, List.length_cons, Nat.succ_mul, Nat.add_comm]

/-- A sum changes by what one of its terms changes. -/
theorem sum_modify (ha : as[i]? = some a) (hf : g (f a) + c = g a + d) :
    (as.modify i f).foldr (fun a n => g a + n) 0 + c = as.foldr (fun a n => g a + n) 0 + d := by
  induction as generalizing i with
  | nil => cases ha
  | cons b as ih =>
      cases i with
      | zero =>
          obtain rfl := Option.some.inj ha
          rw [List.modify_zero_cons, List.foldr_cons, List.foldr_cons]
          omega
      | succ i =>
          have hrest := ih ha
          rw [List.modify_succ_cons, List.foldr_cons, List.foldr_cons]
          omega

/-- A list has something besides what one of its members lost. -/
theorem any_modify {p : α → Bool} {b : Bool} (ha : as[i]? = some a) (hf : p a = (b || p (f a))) :
    as.any p = (b || (as.modify i f).any p) := by
  induction as generalizing i with
  | nil => cases ha
  | cons c as ih =>
      cases i with
      | zero =>
          obtain rfl := Option.some.inj ha
          rw [List.modify_zero_cons, List.any_cons, List.any_cons, hf, Bool.or_assoc]
      | succ i =>
          rw [List.modify_succ_cons, List.any_cons, List.any_cons, ih ha, Bool.or_left_comm]

end Recycler

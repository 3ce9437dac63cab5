import Recycler.Proofs.Session.Reuse

/-!
# When no worker ends

The executors that somebody refers to are those in registers, those of the holders and the trees
that still exist, and those whose workers are at a task (`mem_queuesInUse_iff`). A frame makes no
difference to them if what it refers to is referred to without it (`mem_queuesInUse_off`), and a
worker ends only if there is a difference (`dismissSince_of_subset`).
-/

namespace Recycler.Session

variable {s before : Session} {i q : Nat} {f : Frame}

/-! ## Executors in use -/

theorem any_zipIdx_iff {α : Type} {l : List α} {p : α × Nat → Bool} :
    l.zipIdx.any p ↔ ∃ n a, l[n]? = some a ∧ p (a, n) := by
  rw [List.any_eq_true]
  constructor
  · rintro ⟨⟨a, n⟩, hmem, hp⟩
    exact ⟨n, a, List.mem_zipIdx_iff_getElem?.1 hmem, hp⟩
  · rintro ⟨n, a, ha, hp⟩
    exact ⟨(a, n), List.mem_zipIdx_iff_getElem?.2 ha, hp⟩

theorem mem_policies_iff {policy : Policy} : policy ∈ s.policies ↔
    (∃ k x, s.store.holders[k]? = some x ∧ s.isAlive k ∧ x.state.policy = policy) ∨
      ∃ t tree, s.store.tree? t = some tree ∧ s.refersToTree t ∧ tree.config.policy = policy := by
  unfold policies
  rw [List.mem_append, List.mem_map, List.mem_map]
  refine or_congr ⟨?_, ?_⟩ ⟨?_, ?_⟩
  · rintro ⟨⟨x, k⟩, hmem, rfl⟩
    obtain ⟨hmem, halive⟩ := List.mem_filter.1 hmem
    exact ⟨k, x, List.mem_zipIdx_iff_getElem?.1 hmem, halive, rfl⟩
  · rintro ⟨k, x, hx, halive, rfl⟩
    exact ⟨(x, k), List.mem_filter.2 ⟨List.mem_zipIdx_iff_getElem?.2 hx, halive⟩, rfl⟩
  · rintro ⟨tree, hmem, rfl⟩
    obtain ⟨⟨engine, e⟩, he, hmem⟩ := List.mem_flatMap.1 hmem
    obtain ⟨⟨tree, n⟩, hn, rfl⟩ := List.mem_map.1 hmem
    obtain ⟨hmem, hrefers⟩ := List.mem_filter.1 hn
    refine ⟨⟨e, n⟩, tree, ?_, hrefers, rfl⟩
    rw [Store.tree?, List.mem_zipIdx_iff_getElem?.1 he]
    exact List.mem_zipIdx_iff_getElem?.1 hmem
  · rintro ⟨⟨e, n⟩, tree, htree, hrefers, rfl⟩
    obtain ⟨engine, he, htree⟩ := Option.bind_eq_some_iff.1 htree
    have hmem : (tree, n) ∈ engine.trees.zipIdx.filter fun t => s.refersToTree ⟨e, t.2⟩ :=
      List.mem_filter.2 ⟨List.mem_zipIdx_iff_getElem?.2 htree, hrefers⟩
    exact ⟨tree, List.mem_flatMap.2 ⟨(engine, e), List.mem_zipIdx_iff_getElem?.2 he,
      List.mem_map.2 ⟨(tree, n), hmem, rfl⟩⟩, rfl⟩

theorem mem_queuesInUse_iff : q ∈ s.queuesInUse ↔
    (∃ e ∈ s.registers.executors.entries, e.2.queue? = some q) ∨
      (∃ policy ∈ s.policies, ∃ e ∈ policy.executors, e.queue? = some q) ∨
        s.threads.any fun t => t.stack.any fun f => f.busy? = some q := by
  unfold queuesInUse
  simp only [List.mem_append, List.mem_filterMap, List.mem_map, List.mem_flatMap, or_assoc,
    List.any_eq_true, decide_eq_true_eq, or_and_right, exists_or]
  refine or_congr ⟨?_, ?_⟩ (or_congr ⟨?_, ?_⟩ Iff.rfl)
  · rintro ⟨-, ⟨e, he, rfl⟩, hq⟩
    exact ⟨e, he, hq⟩
  · rintro ⟨e, he, hq⟩
    exact ⟨e.2, ⟨e, he, rfl⟩, hq⟩
  · rintro ⟨e, ⟨policy, hp, he⟩, hq⟩
    exact ⟨policy, hp, e, he, hq⟩
  · rintro ⟨policy, hp, e, he, hq⟩
    exact ⟨e, ⟨policy, hp, he⟩, hq⟩

/-- No worker ends if the executors that were in use are in use still. -/
theorem dismissSince_of_subset (h : ∀ q ∈ before.queuesInUse, q ∈ s.queuesInUse) :
    s.dismissSince before = s := by
  have hlost : before.queuesInUse.filter (!s.queuesInUse.contains ·) = [] :=
    List.filter_eq_nil_iff.2 fun q hq => by simp [h q hq]
  simp only [dismissSince, hlost]
  rfl

/-! ## The frame on top of a thread -/

theorem any_stack_off (hf : s.top? i = some f) (p : Frame → Bool) :
    (s.threads.any fun t => t.stack.any p) =
      (p f || (s.off i).threads.any fun t => t.stack.any p) := by
  obtain ⟨u, hu, hhead⟩ := Option.bind_eq_some_iff.1 hf
  obtain ⟨rest, hrest⟩ := List.head?_eq_some_iff.1 hhead
  exact any_modify hu (by rw [hrest, List.any_cons, List.tail_cons])

/-- What a frame refers to is referred to without it. -/
structure Secures (s : Session) (f : Frame) : Prop where
  holder : ∀ h, f.holder? = some h → s.isAlive h
  engine : ∀ e, f.engine? = some e → s.refersToEngine e
  tree : ∀ t, f.tree? = some t → s.refersToTree t
  busy : f.busy? = none

theorem isAlive_off (hf : s.top? i = some f) (hs : (s.off i).Secures f) (h : Nat) :
    s.isAlive h = (s.off i).isAlive h := by
  have hstore : (s.off i).store = s.store := rfl
  by_cases hh : f.holder? = some h
  · have hlive := hs.holder h hh
    rw [hlive, isAlive, references_off hf h, if_pos hh]
    simp
  · rw [isAlive, isAlive, references_off hf h, if_neg hh, Nat.add_zero, hstore]

theorem refersToEngine_off (hf : s.top? i = some f) (hs : (s.off i).Secures f) (e : Nat) :
    s.refersToEngine e = (s.off i).refersToEngine e := by
  have hregisters : (s.off i).registers = s.registers := rfl
  by_cases he : f.engine? = some e
  · have hrefers := hs.engine e he
    rw [hrefers, refersToEngine, any_stack_off hf]
    simp [he]
  · rw [refersToEngine, refersToEngine, any_stack_off hf, hregisters]
    simp [he]

theorem refersToTree_off (hf : s.top? i = some f) (hs : (s.off i).Secures f) (t : TreeRef) :
    s.refersToTree t = (s.off i).refersToTree t := by
  have hstore : (s.off i).store = s.store := rfl
  by_cases ht : f.tree? = some t
  · have hrefers := hs.tree t ht
    rw [hrefers, refersToTree, any_stack_off hf]
    simp [ht]
  · simp only [refersToTree, any_stack_off hf, refersToEngine_off hf hs, isAlive_off hf hs, hstore]
    simp [ht]

/-- The same executors are in use without a frame that refers to nothing that is not referred to
without it. -/
theorem mem_queuesInUse_off (hf : s.top? i = some f) (hs : (s.off i).Secures f) :
    q ∈ s.queuesInUse ↔ q ∈ (s.off i).queuesInUse := by
  have hstore : (s.off i).store = s.store := rfl
  have hregisters : (s.off i).registers = s.registers := rfl
  simp only [mem_queuesInUse_iff, mem_policies_iff, any_stack_off hf, isAlive_off hf hs,
    refersToTree_off hf hs, hstore, hregisters, hs.busy]
  simp

theorem mem_queuesInUse_push (hi : i < s.threads.length) (hs : s.Secures f) :
    q ∈ (s.push i [f]).queuesInUse ↔ q ∈ s.queuesInUse := by
  rw [← s.off_push i f] at hs
  rw [mem_queuesInUse_off (top?_push_of_lt hi f []) hs, off_push]

end Recycler.Session

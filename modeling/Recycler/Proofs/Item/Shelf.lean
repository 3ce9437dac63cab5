import Recycler.Item.Shelf
import Recycler.Proofs.Item.Merge

/-!
# What a snapshot holds is told by its history

Any number of snapshots are changed by operations on one or the other of them. What is bound to a
key of a snapshot is told by the operations so far (`lastBound?`): a put of the key or a merge of a
snapshot with the key, since when the key was not removed. `bound_of_run` says that everything that
can be seen of the snapshots is told by this alone.

A step changes one snapshot (`Step.changed?`). Copies are as independent as any other snapshots: if
nobody takes values over from a snapshot, its changes are seen nowhere else (`get_follow_without`).
-/

namespace Recycler

theorem Shelf.get_modify {α : Type} (s : Shelf α) (n m : Nat) (f : α → α) :
    (s.modify n f).get m = if n = m then f (s.get n) else s.get m :=
  s.get_set n m _

namespace Snapshot

variable {υ κ : Type}

/-- An operation, with the place of the snapshot that it is called on. -/
structure Step (υ : Type := Value) (κ : Type := Kind) where
  place : Nat
  op : Op υ κ
  deriving DecidableEq

namespace Step

/-- The place of the snapshot that a step changes. -/
def changed? : Step υ κ → Option Nat
  | ⟨n, .put ..⟩ => some n
  | ⟨n, .erase _⟩ => some n
  | ⟨n, .merge _⟩ => some n
  | ⟨n, .renew⟩ => some n
  | ⟨_, .copy target⟩ => some target
  | ⟨_, .get ..⟩ => none
  | ⟨_, .contains _⟩ => none

/-- The place of the snapshot whose values a step takes over. -/
def source? : Step υ κ → Option Nat
  | ⟨_, .merge source⟩ => some source
  | ⟨n, .copy _⟩ => some n
  | _ => none

/-- A step takes values from a snapshot over into another one. -/
def TakesFrom (step : Step υ κ) (m : Nat) : Prop :=
  step.source? = some m ∧ step.changed? ≠ some m

instance (step : Step υ κ) (m : Nat) : Decidable (step.TakesFrom m) :=
  inferInstanceAs (Decidable (_ ∧ _))

/-- What is left of a history without the changes of the snapshot at a place. -/
def without (m : Nat) (steps : List (Step υ κ)) : List (Step υ κ) :=
  steps.filter (·.changed? ≠ some m)

theorem without_cons_of_eq {step : Step υ κ} {m : Nat} (h : step.changed? = some m)
    (steps : List (Step υ κ)) : without m (step :: steps) = without m steps :=
  List.filter_cons_of_neg (by simpa using h)

theorem without_cons_of_ne {step : Step υ κ} {m : Nat} (h : step.changed? ≠ some m)
    (steps : List (Step υ κ)) : without m (step :: steps) = step :: without m steps :=
  List.filter_cons_of_pos (by simpa using h)

end Step

/-- The value last bound to a key of the snapshot at a place, by a history with the latest step
first: a put and a merge bind, a removal unbinds, and a copy has what the snapshot had of which it
is one. -/
def lastBound? : List (Step υ κ) → Nat → String → Option υ
  | [], _, _ => none
  | ⟨n, .put key' v⟩ :: past, m, key =>
    if n = m ∧ key' = key then some v else lastBound? past m key
  | ⟨n, .erase key'⟩ :: past, m, key =>
    if n = m ∧ key' = key then none else lastBound? past m key
  | ⟨n, .merge source⟩ :: past, m, key =>
    if n = m then (lastBound? past source key).or (lastBound? past m key)
    else lastBound? past m key
  | ⟨n, .copy target⟩ :: past, m, key => lastBound? past (if target = m then n else m) key
  | ⟨n, .renew⟩ :: past, m, key => if n = m then none else lastBound? past m key
  | ⟨_, .get ..⟩ :: past, m, key => lastBound? past m key
  | ⟨_, .contains _⟩ :: past, m, key => lastBound? past m key

/-- The keys bound in the snapshot at a place, by a history with the latest step first. -/
def boundKeys (history : List (Step υ κ)) (m : Nat) : Set String :=
  {key | (lastBound? history m key).isSome}

/-- No value is made up: what is bound to a key was put under this key. -/
theorem exists_put_of_lastBound? {history : List (Step υ κ)} {m : Nat} {key : String}
    {v : υ} (h : lastBound? history m key = some v) : ∃ n, ⟨n, .put key v⟩ ∈ history := by
  induction history generalizing m with
  | nil => cases h
  | cons step past ih =>
      have hpast : ∀ {q}, lastBound? past q key = some v → ∃ n, ⟨n, .put key v⟩ ∈ step :: past :=
        fun hq => (ih hq).imp fun n hn => List.mem_cons_of_mem _ hn
      obtain ⟨n, op⟩ := step
      cases op with
      | put key' v' =>
          rw [lastBound?] at h
          split at h
          · next hkey =>
              obtain rfl := hkey.2
              obtain rfl := Option.some.inj h
              exact ⟨n, List.mem_cons_self⟩
          · exact hpast h
      | erase key' =>
          rw [lastBound?] at h
          split at h
          · cases h
          · exact hpast h
      | merge source =>
          rw [lastBound?] at h
          split at h
          · obtain hsource | ⟨-, hown⟩ := Option.or_eq_some_iff.1 h
            · exact hpast hsource
            · exact hpast hown
          · exact hpast h
      | renew =>
          rw [lastBound?] at h
          split at h
          · cases h
          · exact hpast h
      | copy target => exact hpast h
      | get key' k => exact hpast h
      | contains key' => exact hpast h

variable [Kinded υ κ] [DecidableEq κ] {s s' : Shelf (Snapshot υ)} {step : Step υ κ}
  {steps : List (Step υ κ)} {m q : Nat}

/-! ## One step -/

/-- The shelf after a step. -/
def next (s : Shelf (Snapshot υ)) (step : Step υ κ) : Shelf (Snapshot υ) :=
  (step.op.run s step.place).1

theorem get_next_put (s : Shelf (Snapshot υ)) (n m : Nat) (key : String) (v : υ) :
    (next s (⟨n, .put key v⟩ : Step υ κ)).get m = if n = m then (s.get n).put key v else s.get m :=
  s.get_modify n m _

theorem get_next_erase (s : Shelf (Snapshot υ)) (n m : Nat) (key : String) :
    (next s (⟨n, .erase key⟩ : Step υ κ)).get m = if n = m then (s.get n).erase key else s.get m :=
  s.get_modify n m _

theorem get_next_merge (s : Shelf (Snapshot υ)) (n source m : Nat) :
    (next s (⟨n, .merge source⟩ : Step υ κ)).get m =
      if n = m then (s.get n).merge (s.get source) else s.get m :=
  s.get_modify n m _

theorem get_next_copy (s : Shelf (Snapshot υ)) (n target m : Nat) :
    (next s (⟨n, .copy target⟩ : Step υ κ)).get m = if target = m then s.get n else s.get m :=
  s.get_set target m _

theorem get_next_renew (s : Shelf (Snapshot υ)) (n m : Nat) :
    (next s (⟨n, .renew⟩ : Step υ κ)).get m = if n = m then .empty else s.get m :=
  s.get_set n m _

/-- A step leaves alone every snapshot but the one that it changes. -/
theorem get_next_of_ne (h : step.changed? ≠ some m) : (next s step).get m = s.get m := by
  obtain ⟨n, op⟩ := step
  cases op with
  | put key v => rw [get_next_put, if_neg fun hn => h (congrArg some hn)]
  | erase key => rw [get_next_erase, if_neg fun hn => h (congrArg some hn)]
  | merge source => rw [get_next_merge, if_neg fun hn => h (congrArg some hn)]
  | copy target => rw [get_next_copy, if_neg fun htarget => h (congrArg some htarget)]
  | renew => rw [get_next_renew, if_neg fun hn => h (congrArg some hn)]
  | get key k => rfl
  | contains key => rfl

/-- A step that neither changes a snapshot nor takes over from it does not depend on it. -/
theorem get_next_congr (hs : ∀ q, q ≠ m → s.get q = s'.get q) (hchanged : step.changed? ≠ some m)
    (hsource : step.source? ≠ some m) (hq : q ≠ m) :
    (next s step).get q = (next s' step).get q := by
  obtain ⟨n, op⟩ := step
  cases op with
  | put key v =>
      have hn : n ≠ m := fun hn => hchanged (congrArg some hn)
      rw [get_next_put, get_next_put, hs n hn, hs q hq]
  | erase key =>
      have hn : n ≠ m := fun hn => hchanged (congrArg some hn)
      rw [get_next_erase, get_next_erase, hs n hn, hs q hq]
  | merge source =>
      have hn : n ≠ m := fun hn => hchanged (congrArg some hn)
      have hm : source ≠ m := fun hm => hsource (congrArg some hm)
      rw [get_next_merge, get_next_merge, hs n hn, hs source hm, hs q hq]
  | copy target =>
      have hn : n ≠ m := fun hn => hsource (congrArg some hn)
      rw [get_next_copy, get_next_copy, hs n hn, hs q hq]
  | renew => rw [get_next_renew, get_next_renew, hs q hq]
  | get key k => exact hs q hq
  | contains key => exact hs q hq

/-! ## Any number of steps -/

/-- The shelf after a sequence of steps. -/
def follow (s : Shelf (Snapshot υ)) (steps : List (Step υ κ)) : Shelf (Snapshot υ) :=
  steps.foldl next s

/-- The shelf to begin with: every snapshot is empty. -/
def fresh : Shelf (Snapshot υ) := { blank := .empty }

@[simp] theorem follow_nil (s : Shelf (Snapshot υ)) : follow s ([] : List (Step υ κ)) = s := rfl

theorem follow_cons (s : Shelf (Snapshot υ)) (step : Step υ κ) (steps : List (Step υ κ)) :
    follow s (step :: steps) = follow (next s step) steps := rfl

theorem follow_append (s : Shelf (Snapshot υ)) (steps later : List (Step υ κ)) :
    follow s (steps ++ later) = follow (follow s steps) later := List.foldl_append

theorem follow_concat (s : Shelf (Snapshot υ)) (steps : List (Step υ κ)) (step : Step υ κ) :
    follow s (steps ++ [step]) = next (follow s steps) step := follow_append s steps [step]

theorem get_follow_of_forall (h : ∀ step ∈ steps, step.changed? ≠ some m) :
    (follow s steps).get m = s.get m := by
  induction steps generalizing s with
  | nil => rfl
  | cons step steps ih =>
      rw [follow_cons, ih fun st hst => h st (List.mem_cons_of_mem _ hst),
        get_next_of_ne (h step List.mem_cons_self)]

/-- If nobody takes over from a snapshot, no other snapshot depends on its changes. -/
theorem get_follow_without (hs : ∀ q, q ≠ m → s.get q = s'.get q)
    (h : ∀ step ∈ steps, ¬ step.TakesFrom m) (hq : q ≠ m) :
    (follow s steps).get q = (follow s' (Step.without m steps)).get q := by
  induction steps generalizing s s' with
  | nil => exact hs q hq
  | cons step steps ih =>
      have hrest := fun st hst => h st (List.mem_cons_of_mem step hst)
      by_cases hchanged : step.changed? = some m
      -- A change of the snapshot is made in one run only, and shows at its place only.
      · rw [Step.without_cons_of_eq hchanged, follow_cons]
        refine ih (fun q hq => ?_) hrest
        have hne : step.changed? ≠ some q :=
          fun heq => hq (Option.some.inj (heq.symm.trans hchanged))
        rw [get_next_of_ne hne, hs q hq]
      · rw [Step.without_cons_of_ne hchanged, follow_cons, follow_cons]
        have hsource : step.source? ≠ some m :=
          fun hsource => h step List.mem_cons_self ⟨hsource, hchanged⟩
        exact ih (fun q hq => get_next_congr hs hchanged hsource hq) hrest

/-- What a snapshot holds under a key is what its history says. -/
theorem value?_get_follow (steps : List (Step υ κ)) (m : Nat) (key : String) :
    ((follow fresh steps).get m).value? key = lastBound? steps.reverse m key := by
  induction steps using List.reverseRecOn generalizing m key with
  | nil => rfl
  | append_singleton steps step ih =>
      obtain ⟨n, op⟩ := step
      rw [follow_concat, List.reverse_concat]
      cases op with
      | put key' v =>
          rw [get_next_put, lastBound?, ← ih]
          by_cases hn : n = m
          · subst hn
            simp only [if_pos, true_and, value?_put]
          · rw [if_neg hn, if_neg fun h => hn h.1]
      | erase key' =>
          rw [get_next_erase, lastBound?, ← ih]
          by_cases hn : n = m
          · subst hn
            simp only [if_pos, true_and, value?_erase]
          · rw [if_neg hn, if_neg fun h => hn h.1]
      | merge source =>
          rw [get_next_merge, lastBound?, ← ih, ← ih]
          by_cases hn : n = m
          · rw [if_pos hn, if_pos hn, value?_merge, hn]
          · rw [if_neg hn, if_neg hn]
      | copy target =>
          rw [get_next_copy, lastBound?, ← ih]
          split <;> rfl
      | renew =>
          rw [get_next_renew, lastBound?, ← ih]
          split <;> rfl
      | get key' k => exact ih m key
      | contains key' => exact ih m key

/-- What can be seen of any number of snapshots after a sequence of operations on them. -/
structure Told (steps : List (Step υ κ)) : Prop where
  /-- A value is read back under its key and at its own kind, and at no other kind. -/
  get : ∀ n key (k : κ), ((Op.get key k).run (follow fresh steps) n).2 =
    .value ((lastBound? steps.reverse n key).filter (Kinded.kind · = k))
  contains : ∀ n key, ((.contains key : Op υ κ).run (follow fresh steps) n).2 =
    .truth (lastBound? steps.reverse n key).isSome
  erase : ∀ n key, ((.erase key : Op υ κ).run (follow fresh steps) n).2 =
    .truth (lastBound? steps.reverse n key).isSome
  put : ∀ n key v, lastBound? steps.reverse n key = some v → ∃ m, ⟨m, .put key v⟩ ∈ steps
  size : ∀ n, (boundKeys steps.reverse n).encard = ((follow fresh steps).get n).size
  /-- The text lists the keys that are bound in ascending order, each once. -/
  text : ∀ n, ∃ keys : List String, keys.Pairwise (· < ·) ∧
    (∀ key, key ∈ keys ↔ key ∈ boundKeys steps.reverse n) ∧
    ((follow fresh steps).get n).text =
      Text.record "StateSnapshot" [("keys", Text.list (keys.map Text.quote))]
  /-- It is the same for all histories after which the same keys are bound. -/
  sameText : ∀ n (others : List (Step υ κ)) m,
    boundKeys steps.reverse n = boundKeys others.reverse m →
      ((follow fresh steps).get n).text = ((follow fresh others).get m).text
  /-- An operation on another snapshot changes nothing. -/
  apart : ∀ (later : List (Step υ κ)) n, (∀ step ∈ later, step.changed? ≠ some n) →
    (follow fresh (steps ++ later)).get n = (follow fresh steps).get n
  /-- A merge is read like the second snapshot where that has a key and like the first elsewhere. -/
  merge : ∀ n source key (k : κ),
    ((follow fresh (steps ++ [⟨n, .merge source⟩])).get n).get? key k =
      if ((follow fresh steps).get source).contains key
      then ((follow fresh steps).get source).get? key k
      else ((follow fresh steps).get n).get? key k
  /-- The second snapshot of a merge stays as it was. -/
  source : ∀ n source, ((follow fresh (steps ++ [⟨n, .merge source⟩])).get source).Alike
    ((follow fresh steps).get source)
  /-- A copy is what its original was. -/
  copy : ∀ n target, n ≠ target →
    (follow fresh (steps ++ [⟨n, .copy target⟩])).get target = (follow fresh steps).get n
  /-- The original is as it would be without the changes of the copy, unless somebody takes them
  over. -/
  original : ∀ n target (later : List (Step υ κ)), n ≠ target →
    (∀ step ∈ later, ¬ step.TakesFrom target) →
      (follow fresh (steps ++ ⟨n, .copy target⟩ :: later)).get n =
        (follow fresh (steps ++ Step.without target later)).get n
  /-- The copy is as it would be without the changes of the original. -/
  copied : ∀ n target (later : List (Step υ κ)), n ≠ target →
    (∀ step ∈ later, ¬ step.TakesFrom n) →
      (follow fresh (steps ++ ⟨n, .copy target⟩ :: later)).get target =
        (follow fresh (steps ++ ⟨n, .copy target⟩ :: Step.without n later)).get target

/-- Nobody can tell how several merges were grouped, whether one was made twice, or in which order
the values were copied. -/
structure Merges (s t : Snapshot υ) : Prop where
  assoc : ∀ u, ((s.merge t).merge u).Alike (s.merge (t.merge u))
  self : (s.merge s).Alike s
  again : ((s.merge t).merge t).Alike (s.merge t)
  perm : ∀ es : List (String × υ), es.Perm t.values.entries →
    (es.foldl (fun s e => s.put e.1 e.2) s).Alike (s.merge t)

/-- After any sequence of operations on any number of snapshots all that can be seen of them is told
by the operations, and merges may be grouped anew or repeated. -/
theorem bound_of_run (steps : List (Step υ κ)) :
    Told steps ∧ ∀ s t : Snapshot υ, Merges s t := by
  refine ⟨⟨fun n key k => ?_, fun n key => ?_, fun n key => ?_, fun n key v hv => ?_, fun n => ?_,
    fun n => ?_, fun n others m h => ?_, fun later n h => ?_, fun n source key k => ?_,
    fun n source => ?_, fun n target hne => ?_, fun n target later hne h => ?_,
    fun n target later hne h => ?_⟩, fun s t => ?_⟩
  · rw [← value?_get_follow]
    rfl
  · rw [← value?_get_follow]
    rfl
  · rw [← value?_get_follow]
    rfl
  · obtain ⟨m, hm⟩ := exists_put_of_lastBound? hv
    exact ⟨m, List.mem_reverse.1 hm⟩
  · rw [← encard_bound]
    simp only [value?_get_follow]
    rfl
  · refine ⟨_, pairwise_sortedKeys _, fun key => ?_, rfl⟩
    rw [mem_sortedKeys_iff, value?_get_follow]
    rfl
  · refine text_congr fun key => ?_
    rw [value?_get_follow, value?_get_follow, Bool.eq_iff_iff]
    exact Set.ext_iff.1 h key
  · rw [follow_append, get_follow_of_forall h]
  · rw [follow_concat, get_next_merge, if_pos rfl]
    split
    · next h => exact get?_merge_of_contains h k
    · next h => exact get?_merge_of_not_contains (Bool.eq_false_iff.2 h) k
  · rw [follow_concat, get_next_merge]
    split
    · next h => exact h ▸ merge_self _
    · exact alike_iff.2 fun _ => rfl
  · rw [follow_concat, get_next_copy, if_pos rfl]
  · rw [follow_append, follow_cons, follow_append]
    refine get_follow_without (fun q hq => ?_) h hne
    rw [get_next_copy, if_neg hq.symm]
  · rw [follow_append, follow_cons, follow_append, follow_cons]
    exact get_follow_without (fun q hq => rfl) h hne.symm
  · exact ⟨merge_assoc s t, merge_self s, merge_merge_self s t, fun es => merge_perm⟩

/-! ### A copy that was made before a merge -/

namespace Copied

def puts : List Step :=
  [⟨0, .put "b" (.nat8 2)⟩, ⟨0, .put "a" (.int32 1)⟩, ⟨1, .put "b" (.text "x")⟩]

/-- The original is merged with another snapshot, and the copy loses a key. -/
def changes : List Step := [⟨0, .merge 1⟩, ⟨2, .erase "a"⟩]

/-- A history after which the same keys are bound, with other values in another order. -/
def putsElsewhere : List Step := [⟨3, .put "a" .unit⟩, ⟨3, .put "b" .unit⟩]

theorem boundKeys_puts : boundKeys puts.reverse 0 = boundKeys putsElsewhere.reverse 3 := by
  ext key
  simp only [boundKeys, puts, putsElsewhere, List.reverse_cons, List.reverse_nil, List.nil_append,
    List.cons_append, lastBound?, Set.mem_ofPred_eq]
  by_cases ha : "a" = key <;> by_cases hb : "b" = key <;> simp [ha, hb]

theorem copy_keeps_its_values :
    ((Op.get "b" .text).run (follow fresh (puts ++ [⟨0, .merge 1⟩])) 0).2 =
      .value (some (.text "x")) ∧
    ((Op.get "b" .nat8).run (follow fresh (puts ++ [⟨0, .merge 1⟩])) 0).2 = .value none ∧
    boundKeys puts.reverse 0 = boundKeys putsElsewhere.reverse 3 ∧
    ((follow fresh puts).get 0).text = ((follow fresh putsElsewhere).get 3).text ∧
    (∀ step ∈ changes, step.changed? ≠ some 1) ∧
    (follow fresh (puts ++ changes)).get 1 = (follow fresh puts).get 1 ∧
    0 ≠ 2 ∧ (∀ step ∈ changes, ¬ step.TakesFrom 2) ∧ (∀ step ∈ changes, ¬ step.TakesFrom 0) ∧
    (follow fresh (puts ++ ⟨0, .copy 2⟩ :: changes)).get 0 =
      (follow fresh (puts ++ [⟨0, .merge 1⟩])).get 0 ∧
    (follow fresh (puts ++ ⟨0, .copy 2⟩ :: changes)).get 2 =
      (follow fresh (puts ++ [⟨0, .copy 2⟩, ⟨2, .erase "a"⟩])).get 2 := by
  obtain ⟨hmerged, -⟩ := bound_of_run (puts ++ [⟨0, .merge 1⟩])
  obtain ⟨htold, -⟩ := bound_of_run puts
  have hchanged : ∀ step ∈ changes, step.changed? ≠ some 1 := by decide
  have hcopy : ∀ step ∈ changes, ¬ step.TakesFrom 2 := by decide
  have horiginal : ∀ step ∈ changes, ¬ step.TakesFrom 0 := by decide
  exact ⟨hmerged.get 0 "b" .text, hmerged.get 0 "b" .nat8, boundKeys_puts,
    htold.sameText 0 putsElsewhere 3 boundKeys_puts, hchanged, htold.apart changes 1 hchanged,
    by decide, hcopy, horiginal, htold.original 0 2 changes (by decide) hcopy,
    htold.copied 0 2 changes (by decide) horiginal⟩

end Copied

end Snapshot

end Recycler

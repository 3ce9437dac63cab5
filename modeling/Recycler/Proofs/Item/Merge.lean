import Mathlib.Data.List.Sort
import Mathlib.Data.Set.Card
import Mathlib.Data.String.Basic
import Recycler.Item.Snapshot

/-!
# What can be seen of a snapshot

A snapshot is seen through its operations alone: what they read at each key and kind, which keys
there are and how many, and the text. All of it is told by the value under each key (`alike_iff`),
so that the order in which values were put or copied leaves no trace.

A merge is read through the same values, those of the second snapshot before those of the first.
It is associative and idempotent as far as anybody can see.
-/

namespace Recycler

/-! ## Entries in another order -/

namespace Keyed

variable {κ α : Type} [DecidableEq κ] {es : List (κ × α)}

/-- The entries may be put in any order. -/
theorem get?_foldl_put_of_perm {n : Keyed κ α} (h : es.Perm n.entries) (m : Keyed κ α) (k : κ) :
    (es.foldl (fun acc e => acc.put e.1 e.2) m).get? k = (n.get? k).or (m.get? k) := by
  have hdistinct : (es.map Prod.fst).Nodup := (h.map Prod.fst).nodup_iff.2 n.distinct
  have hfind : find k es = n.get? k := by
    ext a
    have hes : find k es = some a ↔ (k, a) ∈ es := get?_eq_some_iff (m := ⟨es, hdistinct⟩)
    rw [hes, h.mem_iff, get?_eq_some_iff]
  rw [get?_foldl_put hdistinct, hfind]

/-- A key has one entry, so that the number of entries is that of the bound keys. -/
theorem encard_bound (m : Keyed κ α) : {k | (m.get? k).isSome}.encard = m.size := by
  have hkeys : {k | (m.get? k).isSome} = (m.keys.toFinset : Set κ) := by
    ext k
    rw [Set.mem_ofPred_eq, ← mem_keys_iff, Finset.mem_coe, List.mem_toFinset]
  have hcard : m.keys.toFinset.card = m.size :=
    (List.toFinset_card_of_nodup m.distinct).trans (List.length_map Prod.fst)
  rw [hkeys, Set.encard_coe_eq_coe_finsetCard, hcard]

end Keyed

namespace Snapshot

variable {υ κ : Type} [Kinded υ κ] [DecidableEq κ] {s t : Snapshot υ} {key : String} {v : υ}

/-! ## The value under a key -/

/-- The value under a key, of whatever kind it is. -/
def value? (s : Snapshot υ) (key : String) : Option υ := s.values.get? key

@[simp] theorem value?_empty (key : String) : (empty : Snapshot υ).value? key = none := rfl

theorem value?_put (s : Snapshot υ) (key key' : String) (v : υ) :
    (s.put key v).value? key' = if key = key' then some v else s.value? key' :=
  s.values.get?_put key key' v

theorem value?_erase (s : Snapshot υ) (key key' : String) :
    (s.erase key).value? key' = if key = key' then none else s.value? key' :=
  s.values.get?_erase key key'

theorem value?_merge (s t : Snapshot υ) (key : String) :
    (s.merge t).value? key = (t.value? key).or (s.value? key) :=
  s.values.get?_merge t.values key

theorem get?_eq (s : Snapshot υ) (key : String) (k : κ) :
    s.get? key k = (s.value? key).filter (Kinded.kind · = k) := rfl

theorem contains_eq (s : Snapshot υ) (key : String) : s.contains key = (s.value? key).isSome := rfl

/-- A value is read at its own kind. -/
theorem value?_eq_some_iff : s.value? key = some v ↔ s.get? key (Kinded.kind v) = some v := by
  rw [get?_eq, Option.filter_eq_some_iff]
  simp

/-! ## The keys -/

/-- There are as many values as keys. -/
theorem encard_bound (s : Snapshot υ) : {key | (s.value? key).isSome}.encard = s.size :=
  s.values.encard_bound

theorem mem_sortedKeys_iff : key ∈ s.sortedKeys ↔ (s.value? key).isSome := by
  rw [sortedKeys, List.mem_mergeSort]
  exact s.values.mem_keys_iff key

theorem pairwise_sortedKeys (s : Snapshot υ) : s.sortedKeys.Pairwise (· < ·) := by
  have hnodup : s.sortedKeys.Nodup := (List.mergeSort_perm _ _).nodup_iff.2 s.values.distinct
  have hsorted : s.sortedKeys.Pairwise (· ≤ ·) := List.pairwise_mergeSort' (· ≤ ·) _
  exact (hsorted.and hnodup).imp fun h => lt_of_le_of_ne h.1 h.2

/-- Only one list has the keys in ascending order. -/
theorem eq_sortedKeys {keys : List String} (hsorted : keys.Pairwise (· < ·))
    (hkeys : ∀ key, key ∈ keys ↔ (s.value? key).isSome) : keys = s.sortedKeys :=
  hsorted.eq_of_mem_iff s.pairwise_sortedKeys fun key => (hkeys key).trans mem_sortedKeys_iff.symm

/-- The text tells the keys and nothing else. -/
theorem text_congr (h : ∀ key, (s.value? key).isSome = (t.value? key).isSome) :
    s.text = t.text := by
  have hkeys : s.sortedKeys = t.sortedKeys :=
    eq_sortedKeys s.pairwise_sortedKeys fun key => by rw [mem_sortedKeys_iff, h]
  rw [text, text, hkeys]

theorem isEmpty_iff (s : Snapshot υ) : s.isEmpty ↔ s.size = 0 :=
  List.isEmpty_iff_length_eq_zero

/-! ## Snapshots that cannot be told apart -/

/-- Nobody can tell two snapshots apart. -/
structure Alike (s t : Snapshot υ) : Prop where
  get? : ∀ key (k : κ), s.get? key k = t.get? key k
  contains : ∀ key, s.contains key = t.contains key
  size : s.size = t.size
  isEmpty : s.isEmpty = t.isEmpty
  text : s.text = t.text

/-- Snapshots with the same value under each key cannot be told apart, and there are no others. -/
theorem alike_iff : s.Alike t ↔ ∀ key, s.value? key = t.value? key := by
  constructor
  · intro h key
    ext v
    rw [value?_eq_some_iff, value?_eq_some_iff, h.get?]
  · intro h
    have hsize : s.size = t.size := by
      rw [← ENat.natCast_inj, ← encard_bound, ← encard_bound]
      simp only [h]
    exact {
      get? := fun key k => by rw [get?_eq, get?_eq, h]
      contains := fun key => by rw [contains_eq, contains_eq, h]
      size := hsize
      isEmpty := by rw [Bool.eq_iff_iff, isEmpty_iff, isEmpty_iff, hsize]
      text := text_congr fun key => by rw [h] }

/-! ## Merges -/

/-- Where the second snapshot has a key, a merge is read like the second snapshot. -/
theorem get?_merge_of_contains (h : t.contains key) (k : κ) :
    (s.merge t).get? key k = t.get? key k := by
  rw [contains_eq] at h
  rw [get?_eq, get?_eq, value?_merge, Option.or_of_isSome h]

/-- Where the second snapshot lacks a key, a merge is read like the first. -/
theorem get?_merge_of_not_contains (h : t.contains key = false) (k : κ) :
    (s.merge t).get? key k = s.get? key k := by
  rw [contains_eq, Option.isSome_eq_false_iff] at h
  rw [get?_eq, get?_eq, value?_merge, Option.or_of_isNone h]

theorem merge_assoc (s t u : Snapshot υ) : ((s.merge t).merge u).Alike (s.merge (t.merge u)) :=
  alike_iff.2 fun key => by simp only [value?_merge, Option.or_assoc]

theorem merge_self (s : Snapshot υ) : (s.merge s).Alike s :=
  alike_iff.2 fun key => by rw [value?_merge, Option.or_self]

/-- A merge that is repeated changes nothing that can be seen. -/
theorem merge_merge_self (s t : Snapshot υ) : ((s.merge t).merge t).Alike (s.merge t) :=
  alike_iff.2 fun key => by simp only [value?_merge, ← Option.or_assoc, Option.or_self]

/-- A merge may copy the values in any order. -/
theorem merge_perm {es : List (String × υ)} (h : es.Perm t.values.entries) :
    (es.foldl (fun acc e => acc.put e.1 e.2) s).Alike (s.merge t) := by
  have hvalues : (es.foldl (fun acc e => acc.put e.1 e.2) s).values =
      es.foldl (fun acc e => acc.put e.1 e.2) s.values :=
    (List.foldl_hom Snapshot.values fun _ _ => rfl).symm
  refine alike_iff.2 fun key => ?_
  rw [value?, hvalues, Keyed.get?_foldl_put_of_perm h, value?_merge]
  rfl

end Snapshot

end Recycler

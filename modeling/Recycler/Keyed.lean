/-!
# Keyed collections

A finite map given by its entries, one for each bound key, in the order in which the keys were
first bound. The invariant that no key occurs twice is part of the type.

The view of a keyed collection is `get?`. Each operation has one equation through that view:
`get?_put`, `get?_erase` and `get?_merge`, and `mem_keys_iff` ties the listed keys to it.
-/

namespace Recycler

/-- A finite map from `κ` to `α`: entries with pairwise different keys. -/
structure Keyed (κ α : Type) where
  entries : List (κ × α)
  distinct : (entries.map Prod.fst).Nodup

namespace Keyed

variable {κ α : Type} [DecidableEq κ]

instance [DecidableEq α] : DecidableEq (Keyed κ α) := fun a b =>
  if h : a.entries = b.entries then
    .isTrue (by cases a; cases b; cases h; rfl)
  else .isFalse fun hab => h (hab ▸ rfl)

/-- The collection without entries. -/
def empty : Keyed κ α := ⟨[], .nil⟩

instance : EmptyCollection (Keyed κ α) := ⟨empty⟩

instance : Inhabited (Keyed κ α) := ⟨empty⟩

/-- The bound keys, in the order in which they were first bound. -/
def keys (m : Keyed κ α) : List κ := m.entries.map Prod.fst

/-- The number of bound keys. -/
def size (m : Keyed κ α) : Nat := m.entries.length

/-- Whether no key is bound. -/
def isEmpty (m : Keyed κ α) : Bool := m.entries.isEmpty

/-- The value of the first entry for `k`. -/
def find (k : κ) : List (κ × α) → Option α
  | [] => none
  | e :: es => if e.1 = k then some e.2 else find k es

/-- The value bound to `k`, if there is one. -/
def get? (m : Keyed κ α) (k : κ) : Option α := find k m.entries

/-- Whether `k` is bound. -/
def contains (m : Keyed κ α) (k : κ) : Bool := (m.get? k).isSome

/-- Entries with `k` bound to `a`, in place if `k` was bound and at the end otherwise. -/
def insertEntry (k : κ) (a : α) : List (κ × α) → List (κ × α)
  | [] => [(k, a)]
  | e :: es => if e.1 = k then (k, a) :: es else e :: insertEntry k a es

@[simp] theorem insertEntry_nil (k : κ) (a : α) : insertEntry k a [] = [(k, a)] := rfl

theorem insertEntry_cons (k : κ) (a : α) (e : κ × α) (es : List (κ × α)) :
    insertEntry k a (e :: es) = if e.1 = k then (k, a) :: es else e :: insertEntry k a es := rfl

/-- Inserting binds `k` and no other key. -/
theorem mem_keys_insertEntry (k k' : κ) (a : α) (es : List (κ × α)) :
    k' ∈ (insertEntry k a es).map Prod.fst ↔ k' = k ∨ k' ∈ es.map Prod.fst := by
  induction es with
  | nil => simp
  | cons e es ih =>
      rw [insertEntry_cons]
      split
      · next h => subst h; simp
      · rw [List.map_cons, List.mem_cons, ih, List.map_cons, List.mem_cons]
        exact or_left_comm

theorem nodup_insertEntry (k : κ) (a : α) {es : List (κ × α)}
    (h : (es.map Prod.fst).Nodup) : ((insertEntry k a es).map Prod.fst).Nodup := by
  induction es with
  | nil => simp
  | cons e es ih =>
      rw [List.map_cons, List.nodup_cons] at h
      rw [insertEntry_cons]
      split
      · next hk => subst hk; exact List.nodup_cons.2 h
      · next hk =>
          refine List.nodup_cons.2 ⟨fun hmem => ?_, ih h.2⟩
          rcases (mem_keys_insertEntry k e.1 a es).1 hmem with he | he
          · exact hk he
          · exact h.1 he

/-- Binds `k` to `a`, replacing an earlier value. -/
def put (m : Keyed κ α) (k : κ) (a : α) : Keyed κ α :=
  ⟨insertEntry k a m.entries, nodup_insertEntry k a m.distinct⟩

/-- Unbinds `k`. -/
def erase (m : Keyed κ α) (k : κ) : Keyed κ α :=
  ⟨m.entries.filter (·.1 ≠ k), m.distinct.sublist ((List.filter_sublist).map _)⟩

/-- Copies every entry of `n` into `m`; where both bind a key the value of `n` wins. -/
def merge (m n : Keyed κ α) : Keyed κ α :=
  n.entries.foldl (fun acc e => acc.put e.1 e.2) m

/-- The collection built by putting the entries of a list one after the other. -/
def ofList (es : List (κ × α)) : Keyed κ α :=
  es.foldl (fun acc e => acc.put e.1 e.2) empty

@[simp] theorem find_nil (k : κ) : find k ([] : List (κ × α)) = none := rfl

theorem find_cons (k : κ) (e : κ × α) (es : List (κ × α)) :
    find k (e :: es) = if e.1 = k then some e.2 else find k es := rfl

@[simp] theorem get?_empty (k : κ) : (empty : Keyed κ α).get? k = none := rfl

theorem find_insertEntry (k k' : κ) (a : α) (es : List (κ × α)) :
    find k' (insertEntry k a es) = if k = k' then some a else find k' es := by
  induction es with
  | nil => rfl
  | cons e es ih =>
      rw [insertEntry_cons]
      split
      · next h =>
          subst h
          rw [find_cons, find_cons]
          split <;> rfl
      · next h =>
          rw [find_cons, find_cons, ih]
          by_cases hk : e.1 = k'
          · rw [if_pos hk, if_pos hk, if_neg fun hkk => h (hk.trans hkk.symm)]
          · rw [if_neg hk, if_neg hk]

/-- After a put the key holds the new value and every other key what it held before. -/
theorem get?_put (m : Keyed κ α) (k k' : κ) (a : α) :
    (m.put k a).get? k' = if k = k' then some a else m.get? k' :=
  find_insertEntry k k' a m.entries

theorem find_filter (k k' : κ) (es : List (κ × α)) :
    find k' (es.filter (·.1 ≠ k)) = if k = k' then none else find k' es := by
  induction es with
  | nil => simp
  | cons e es ih =>
      by_cases h : e.1 = k
      · rw [List.filter_cons_of_neg (by simp [h]), ih, find_cons, h]
        split <;> rfl
      · rw [List.filter_cons_of_pos (by simp [h]), find_cons, find_cons, ih]
        by_cases hk : e.1 = k'
        · rw [if_pos hk, if_pos hk, if_neg fun hkk => h (hk.trans hkk.symm)]
        · rw [if_neg hk, if_neg hk]

/-- After an erase the key is unbound and every other key holds what it held before. -/
theorem get?_erase (m : Keyed κ α) (k k' : κ) :
    (m.erase k).get? k' = if k = k' then none else m.get? k' :=
  find_filter k k' m.entries

theorem mem_map_fst_iff (k : κ) (es : List (κ × α)) :
    k ∈ es.map Prod.fst ↔ (find k es).isSome := by
  induction es with
  | nil => simp
  | cons e es ih =>
      rw [List.map_cons, List.mem_cons, find_cons, ih]
      by_cases h : e.1 = k
      · simp [h]
      · rw [if_neg h, or_iff_right fun hk => h hk.symm]

/-- The listed keys are the bound ones. -/
theorem mem_keys_iff (m : Keyed κ α) (k : κ) : k ∈ m.keys ↔ (m.get? k).isSome :=
  mem_map_fst_iff k m.entries

theorem mem_of_find {k : κ} {a : α} {es : List (κ × α)} (h : find k es = some a) :
    (k, a) ∈ es := by
  induction es with
  | nil => cases h
  | cons e es ih =>
      rw [find_cons] at h
      split at h
      · next hk =>
          rw [← hk, ← Option.some.inj h]
          exact List.mem_cons_self
      · exact List.mem_cons_of_mem _ (ih h)

theorem get?_of_mem {m : Keyed κ α} {e : κ × α} (he : e ∈ m.entries) :
    m.get? e.1 = some e.2 := by
  obtain ⟨entries, distinct⟩ := m
  unfold get?
  induction entries with
  | nil => cases he
  | cons e' es ih =>
      rw [List.map_cons, List.nodup_cons] at distinct
      rw [find_cons]
      rcases List.mem_cons.1 he with rfl | he
      · rw [if_pos rfl]
      · have hk : e'.1 ≠ e.1 := fun hk => distinct.1 (hk ▸ List.mem_map_of_mem he)
        rw [if_neg hk]
        exact ih distinct.2 he

/-- The value of a key is in the only entry that the key has. -/
theorem get?_eq_some_iff {m : Keyed κ α} {k : κ} {a : α} :
    m.get? k = some a ↔ (k, a) ∈ m.entries :=
  ⟨mem_of_find, get?_of_mem⟩

theorem get?_foldl_put {es : List (κ × α)} (h : (es.map Prod.fst).Nodup) (m : Keyed κ α)
    (k : κ) :
    (es.foldl (fun acc e => acc.put e.1 e.2) m).get? k = (find k es).or (m.get? k) := by
  induction es generalizing m with
  | nil => rfl
  | cons e es ih =>
      rw [List.map_cons, List.nodup_cons, mem_map_fst_iff] at h
      rw [List.foldl_cons, ih h.2, get?_put, find_cons]
      by_cases hk : e.1 = k
      · have hnone : find k es = none := by simpa [hk] using h.1
        rw [if_pos hk, if_pos hk, hnone]
        rfl
      · rw [if_neg hk, if_neg hk]

/-- After a merge the values of the second collection hide those of the first. -/
theorem get?_merge (m n : Keyed κ α) (k : κ) :
    (m.merge n).get? k = (n.get? k).or (m.get? k) :=
  get?_foldl_put n.distinct m k

end Keyed

end Recycler

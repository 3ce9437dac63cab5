import Mathlib.Data.List.Chain
import Recycler.Section.Render

/-!
# Successive renders of a section

Each render of a section compares the props with those of the render before, the first one with
props that were never given. Carried out one after the other, the edits fit the list they are for
exactly as long as no render without a component follows another one, or comes first
(`fit_iff_of_renders`): such a render asks for the deletion of an item that is not there.
-/

namespace Recycler

namespace Edits

/-- Carries sets of edits out on a list, one after the other. -/
def applyAll? (sets : List Edits) (items : List (Shared Descriptor)) :
    Option (List (Shared Descriptor)) :=
  sets.foldlM (fun items es => es.applyTo? items) items

theorem applyAll?_cons (es : Edits) (sets : List Edits) (items : List (Shared Descriptor)) :
    applyAll? (es :: sets) items = (es.applyTo? items).bind (applyAll? sets) := rfl

theorem applyAll?_append (sets sets' : List Edits) (items : List (Shared Descriptor)) :
    applyAll? (sets ++ sets') items = (applyAll? sets items).bind (applyAll? sets') :=
  List.foldlM_append ..

end Edits

/-- An edit that fits changes the number of items by its delta. -/
theorem Edit.length_applyTo? {e : Edit} {items items' : List (Shared Descriptor)}
    (h : e.applyTo? items = some items') : (items'.length : Int) = items.length + e.delta := by
  cases e with
  | insert i item =>
      rw [applyTo?] at h
      split at h
      · next hi =>
          obtain rfl := Option.some.inj h
          rw [List.length_insertIdx_of_le_length hi, delta, Int.natCast_succ]
      · cases h
  | update i item =>
      rw [applyTo?] at h
      split at h
      · obtain rfl := Option.some.inj h
        rw [List.length_set, delta, Int.add_zero]
      · cases h
  | delete i =>
      rw [applyTo?] at h
      split at h
      · next hi =>
          obtain rfl := Option.some.inj h
          have hlen := List.length_eraseIdx_of_lt hi
          rw [delta]
          omega
      · cases h

/-- Edits that fit change the number of items by their delta. -/
theorem Edits.length_applyTo? {es : Edits} {items items' : List (Shared Descriptor)}
    (h : es.applyTo? items = some items') : (items'.length : Int) = items.length + es.delta := by
  obtain ⟨list⟩ := es
  induction list generalizing items with
  | nil =>
      obtain rfl := Option.some.inj h
      exact (Int.add_zero _).symm
  | cons e list ih =>
      obtain ⟨between, he, hrest⟩ := Option.bind_eq_some_iff.1 h
      have hlater : (items'.length : Int) = between.length + delta ⟨list⟩ := ih hrest
      rw [hlater, e.length_applyTo? he, Int.add_assoc]
      rfl

namespace Section

/-- What one render of a section has to go by: the values of the props, the surroundings, and the
numbers for a descriptor and for a copy of the props, should it issue them. -/
structure Render where
  component : Option Component := none
  sticky : Option Bool := none
  spanSize : Option UInt32 := none
  fullSpan : Option Bool := none
  context : Context := {}
  itemNumber : Nat := 0
  propsNumber : Nat := 0
  deriving DecidableEq

namespace Render

/-- What stands for the render before the first one: no prop was given. -/
def blank : Render := {}

/-- The section at a render that comes after another one. -/
def since (r previous : Render) : Section where
  component := ⟨previous.component, r.component⟩
  sticky := ⟨previous.sticky, r.sticky⟩
  spanSize := ⟨previous.spanSize, r.spanSize⟩
  fullSpan := ⟨previous.fullSpan, r.fullSpan⟩

/-- The edits of a render that comes after another one. -/
def edits (r previous : Render) : Edits :=
  ((r.since previous).render r.context r.itemNumber r.propsNumber).edits

/-- The number of items that a section has after a render. -/
def count (r : Render) : Nat := if r.component.isSome then 1 else 0

/-- One of two renders has a component. -/
def Adjoins (previous r : Render) : Prop := previous.component.isSome ∨ r.component.isSome

end Render

open Render

/-- The edits of the renders that come after another one. -/
def editsSince (previous : Render) : List Render → List Edits
  | [] => []
  | r :: rs => r.edits previous :: editsSince r rs

/-- The items of a section after renders, if all edits fit. -/
def itemsAfter (rs : List Render) : Option (List (Shared Descriptor)) :=
  Edits.applyAll? (editsSince blank rs) []

variable {p r : Render} {items items' : List (Shared Descriptor)}

theorem editsSince_append (p r : Render) (rs : List Render) :
    editsSince p (rs ++ [r]) = editsSince p rs ++ [r.edits (rs.getLast?.getD p)] := by
  induction rs generalizing p with
  | nil => rfl
  | cons q rs ih => rw [List.cons_append, editsSince, editsSince, ih, List.getLast?_cons]; rfl

/-! ## One render -/

theorem edits_of_absent (hr : r.component = none) : r.edits p = ⟨[.delete 0]⟩ := by
  rw [Render.edits, render, since, hr]

/-- A render that has an item to show or to delete makes the list what it should be. -/
theorem exists_applyTo?_edits (hlen : items.length = p.count) (h : Adjoins p r) :
    ∃ items', (r.edits p).applyTo? items = some items' ∧ items'.length = r.count := by
  rw [count] at hlen
  cases hr : r.component with
  | none =>
      have hp : p.component.isSome := h.resolve_right (by rw [hr]; exact Bool.false_ne_true)
      rw [if_pos hp] at hlen
      obtain ⟨item, rfl⟩ := List.length_eq_one_iff.1 hlen
      exact ⟨[], by rw [edits_of_absent hr]; rfl, by rw [count, hr]; rfl⟩
  | some c =>
      have hcount : r.count = 1 := by rw [count, hr]; rfl
      cases hp : p.component with
      | none =>
          rw [hp, if_neg (by decide)] at hlen
          obtain rfl := List.eq_nil_of_length_eq_zero hlen
          rw [Render.edits, render, since, hr, hp]
          exact ⟨[_], rfl, hcount.symm⟩
      | some c' =>
          rw [if_pos (by rw [hp]; rfl)] at hlen
          obtain ⟨item, rfl⟩ := List.length_eq_one_iff.1 hlen
          rw [Render.edits, render, since, hr, hp]
          dsimp only
          split
          · exact ⟨[_], rfl, hcount.symm⟩
          · exact ⟨[item], rfl, hcount.symm⟩

/-- A render without a component after another one deletes an item that is not there. -/
theorem applyTo?_edits_of_not_adjoins (hlen : items.length = p.count) (h : ¬ Adjoins p r) :
    (r.edits p).applyTo? items = none := by
  obtain ⟨hp, hr⟩ := not_or.1 h
  rw [count, if_neg hp] at hlen
  obtain rfl := List.eq_nil_of_length_eq_zero hlen
  rw [edits_of_absent (Option.not_isSome_iff_eq_none.1 hr)]
  rfl

/-! ## Any number of renders -/

/-- The edits of successive renders fit if each of them does, and leave what the last one shows. -/
theorem applyAll?_editsSince (rs : List Render) (hlen : items.length = p.count) :
    ((Edits.applyAll? (editsSince p rs) items).isSome ↔ (p :: rs).IsChain Adjoins) ∧
      ∀ items', Edits.applyAll? (editsSince p rs) items = some items' →
        items'.length = (rs.getLast?.getD p).count := by
  induction rs generalizing p items with
  | nil =>
      refine ⟨iff_of_true rfl (.singleton p), fun items' h => ?_⟩
      rw [← Option.some.inj h]
      exact hlen
  | cons r rs ih =>
      rw [editsSince, Edits.applyAll?_cons, List.isChain_cons_cons, List.getLast?_cons]
      by_cases h : Adjoins p r
      · obtain ⟨between, hfirst, hcount⟩ := exists_applyTo?_edits hlen h
        rw [hfirst, Option.bind_some, and_iff_right h]
        exact ih hcount
      · rw [applyTo?_edits_of_not_adjoins hlen h]
        exact ⟨iff_of_false Bool.false_ne_true fun hchain => h hchain.1, fun items' h => nomatch h⟩

/-- After any number of renders: all edits fit if and only if each of two successive renders, the
first one among them, has a component to show or to delete. After edits that fit the section has
one item if the last render has a component and none otherwise, and the last edits have changed the
number of items by their delta. -/
theorem fit_iff_of_renders (rs : List Render) (r : Render) :
    ((itemsAfter (rs ++ [r])).isSome ↔ (blank :: (rs ++ [r])).IsChain Adjoins) ∧
      ∀ items', itemsAfter (rs ++ [r]) = some items' →
        items'.length = r.count ∧ ∃ items, itemsAfter rs = some items ∧
          (r.edits (rs.getLast?.getD blank)).applyTo? items = some items' ∧
          (r.edits (rs.getLast?.getD blank)).delta = items'.length - items.length := by
  obtain ⟨hfit, hlast⟩ := applyAll?_editsSince (p := blank) (rs ++ [r]) (List.length_nil)
  refine ⟨hfit, fun items' h => ⟨?_, ?_⟩⟩
  · have hlen := hlast items' h
    rwa [List.getLast?_concat] at hlen
  · rw [itemsAfter, editsSince_append, Edits.applyAll?_append] at h
    obtain ⟨items, hitems, h⟩ := Option.bind_eq_some_iff.1 h
    rw [Edits.applyAll?_cons] at h
    obtain ⟨between, hr, h⟩ := Option.bind_eq_some_iff.1 h
    obtain rfl : between = items' := Option.some.inj h
    have hdelta := Edits.length_applyTo? hr
    exact ⟨items, hitems, hr, by omega⟩

/-! ### An item that comes and goes -/

namespace Shown

def shown : Render := { component := some ⟨0, .byName, "a"⟩ }

/-- The same item, spanning two columns. -/
def widened : Render := { shown with spanSize := some 2, itemNumber := 1 }

theorem widened_fits : ∃ items', itemsAfter ([shown] ++ [widened]) = some items' ∧
    items'.length = 1 ∧ (widened.edits shown).delta = 0 := by
  obtain ⟨items', h⟩ : ∃ items', itemsAfter ([shown] ++ [widened]) = some items' := ⟨_, rfl⟩
  obtain ⟨hlen, items, hitems, -, hdelta⟩ := (fit_iff_of_renders [shown] widened).2 items' h
  obtain rfl := Option.some.inj hitems
  refine ⟨items', h, hlen, hdelta.trans ?_⟩
  rw [hlen]
  rfl

/-- The item is deleted once more at the second render without a component. -/
theorem absent_deletes_again :
    itemsAfter [shown, blank] = some [] ∧ blank.edits blank = ⟨[.delete 0]⟩ ∧
      (blank.edits blank).delta = -1 ∧ itemsAfter [shown, blank, blank] = none := by decide

end Shown

end Section

end Recycler

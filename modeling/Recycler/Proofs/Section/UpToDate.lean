import Mathlib.Data.List.DropRight
import Recycler.Proofs.Section.Renders

/-!
# The item of a section is up to date

A render compares with the render before and with no other, and issues no descriptor if nothing
seems to have changed. The descriptor that an item shows may thus be many renders old. It is still
what the last render asks for (`upToDate_of_renders`): its layout props are those of that render,
and its component counts the last one as rendering the same.

The induction needs that components recognise each other along a chain of renders. A component that
goes by names may stand before or behind one that goes by instances, so this holds only because a
number tells instances apart (`Component.isEquivalentTo_trans`).
-/

namespace Recycler

/-- What a component recognises, it recognises across another one too. -/
theorem Component.isEquivalentTo_trans {a b c : Component} (hab : a.number = b.number → a = b)
    (hbc : b.number = c.number → b = c) (h : a.isEquivalentTo b = true)
    (h' : b.isEquivalentTo c = true) : a.isEquivalentTo c = true := by
  cases ha : a.equivalence with
  | byInstance =>
      rw [isEquivalentTo, ha] at h
      rw [hab (of_decide_eq_true h)]
      exact h'
  | byName =>
      rw [isEquivalentTo, ha] at h ⊢
      have hname : b.name = c.name := by
        cases hb : b.equivalence with
        | byName =>
            rw [isEquivalentTo, hb] at h'
            exact of_decide_eq_true h'
        | byInstance =>
            rw [isEquivalentTo, hb] at h'
            rw [hbc (of_decide_eq_true h')]
      exact decide_eq_true ((of_decide_eq_true h).trans hname)

/-- The descriptors that a set of edits issues, in order. -/
def Edits.issued (es : Edits) : List (Shared Descriptor) := es.list.filterMap Edit.item?

/-- The layout props of an item. -/
structure Placement where
  sticky : Bool
  spanSize : UInt32
  fullSpan : Bool
  deriving DecidableEq

/-- The layout props of the item that a descriptor is for. -/
def Descriptor.placement (d : Descriptor) : Placement := ⟨d.sticky, d.spanSize, d.fullSpan⟩

namespace Section

namespace Render

/-- Whether a render has a component. -/
def appears (r : Render) : Bool := r.component.isSome

/-- The layout props in effect at a render: a prop that is not given has its default. -/
def placement (r : Render) : Placement :=
  ⟨r.sticky.getD false, r.spanSize.getD 1, r.fullSpan.getD false⟩

/-- The item a render has to issue for a component, if it issues any. -/
def item (r : Render) (c : Component) : Shared Descriptor :=
  ⟨r.itemNumber, {
    content := .component c
    sticky := r.placement.sticky
    spanSize := r.placement.spanSize
    fullSpan := r.placement.fullSpan
    props := r.context.copyProps r.propsNumber }⟩

end Render

open Render

/-- The renders since the component last appeared: those at the end that have one. -/
def shown (rs : List Render) : List Render := rs.rtakeWhile appears

/-- The render before the component last appeared, `p` if there was none. -/
def beforeShown (p : Render) (rs : List Render) : Render :=
  (rs.rdropWhile appears).getLast?.getD p

/-- The descriptors issued by renders that come after `p`. -/
def issuedSince (p : Render) (rs : List Render) : List (Shared Descriptor) :=
  (editsSince p rs).flatMap Edits.issued

/-- The descriptors issued since the component last appeared, by renders that come after `p`. -/
def issuedSinceShown (p : Render) (rs : List Render) : List (Shared Descriptor) :=
  issuedSince (beforeShown p rs) (shown rs)

/-- The components of renders. -/
def components (rs : List Render) : List Component := rs.filterMap Render.component

/-- Components of one number are one component. -/
def Identified (rs : List Render) : Prop :=
  ∀ b ∈ components rs, ∀ c ∈ components rs, b.number = c.number → b = c

instance (rs : List Render) : Decidable (Identified rs) :=
  inferInstanceAs (Decidable (∀ b ∈ components rs, ∀ c ∈ components rs, _ → _))

/-- Props are numbered as they are allocated: the copy a render makes comes after the props it
copies and after the copies of earlier renders. -/
structure Allocated (rs : List Render) : Prop where
  copies : rs.Pairwise (·.propsNumber < ·.propsNumber)
  originals : ∀ r ∈ rs, ∀ q ∈ r.context.props, q.number < r.propsNumber

variable {p r : Render} {rs : List Render} {b c : Component}

/-! ## One render -/

theorem layoutChanged_since : (r.since p).layoutChanged = decide (p.placement ≠ r.placement) := by
  rw [Bool.eq_iff_iff, decide_eq_true_iff, ne_eq, Placement.mk.injEq]
  simp only [layoutChanged, since, Diff.previousOr, Diff.nextOr, defaultSticky, defaultSpanSize,
    defaultFullSpan, Bool.or_eq_true, bne_iff_ne, not_and_or, or_assoc, ne_eq]
  rfl

theorem edits_of_appears (hp : p.component = none) (hr : r.component = some c) :
    r.edits p = ⟨[.insert 0 (r.item c)]⟩ := by
  rw [Render.edits, render, since, hr, hp]
  rfl

theorem edits_of_changed (hp : p.component = some b) (hr : r.component = some c)
    (h : p.placement ≠ r.placement ∨ b.isEquivalentTo c = false) :
    r.edits p = ⟨[.update 0 (r.item c)]⟩ := by
  have hchanged : ((r.since p).layoutChanged || !b.isEquivalentTo c) = true := by
    rwa [layoutChanged_since, Bool.or_eq_true, decide_eq_true_iff, Bool.not_eq_true']
  rw [Render.edits, render, since, hr, hp]
  dsimp only
  rw [since, hp, hr] at hchanged
  rw [if_pos hchanged]
  rfl

theorem edits_of_unchanged (hp : p.component = some b) (hr : r.component = some c)
    (hplace : p.placement = r.placement) (h : b.isEquivalentTo c = true) : r.edits p = {} := by
  have hunchanged : ((r.since p).layoutChanged || !b.isEquivalentTo c) = false := by
    rw [layoutChanged_since, hplace, h]
    simp
  rw [Render.edits, render, since, hr, hp]
  dsimp only
  rw [since, hp, hr] at hunchanged
  rw [hunchanged]
  rfl

/-- A render issues the item of its component or nothing, and nothing only if the item before is
still good. -/
theorem issued_edits (p : Render) (hr : r.component = some c) :
    (r.edits p).issued = [r.item c] ∨ (r.edits p).issued = [] ∧ p.placement = r.placement ∧
      ∃ b, p.component = some b ∧ b.isEquivalentTo c = true := by
  cases hp : p.component with
  | none => exact .inl (by rw [edits_of_appears hp hr]; rfl)
  | some b =>
      by_cases h : p.placement ≠ r.placement ∨ b.isEquivalentTo c = false
      · exact .inl (by rw [edits_of_changed hp hr h]; rfl)
      · rw [not_or, not_not, Bool.not_eq_false] at h
        exact .inr ⟨by rw [edits_of_unchanged hp hr h.1 h.2]; rfl, h.1, b, rfl, h.2⟩

/-- What a render issues is the item of its component. -/
theorem eq_item_of_mem_issued {d : Shared Descriptor} (hd : d ∈ (r.edits p).issued) :
    ∃ c, r.component = some c ∧ d = r.item c := by
  cases hr : r.component with
  | none =>
      rw [edits_of_absent hr] at hd
      exact absurd hd List.not_mem_nil
  | some c =>
      obtain h | ⟨h, -⟩ := issued_edits p hr
      · rw [h] at hd
        exact ⟨c, rfl, List.mem_singleton.1 hd⟩
      · rw [h] at hd
        exact absurd hd List.not_mem_nil

/-! ## Any number of renders -/

theorem issuedSince_append (p r : Render) (rs : List Render) :
    issuedSince p (rs ++ [r]) = issuedSince p rs ++ (r.edits (rs.getLast?.getD p)).issued := by
  rw [issuedSince, editsSince_append, List.flatMap_append, List.flatMap_singleton]
  rfl

theorem getLast?_getD_shown (p : Render) (rs : List Render) :
    (shown rs).getLast?.getD (beforeShown p rs) = rs.getLast?.getD p := by
  rw [shown, beforeShown]
  conv_rhs => rw [← List.rdropWhile_append_rtakeWhile (p := appears) (l := rs)]
  rw [List.getLast?_append]
  cases (rs.rtakeWhile appears).getLast? <;> rfl

theorem issuedSinceShown_append (p : Render) (hr : r.component = some c) :
    issuedSinceShown p (rs ++ [r]) =
      issuedSinceShown p rs ++ (r.edits (rs.getLast?.getD p)).issued := by
  have happears : r.appears = true := by rw [appears, hr]; rfl
  have hbefore : beforeShown p (rs ++ [r]) = beforeShown p rs := by
    rw [beforeShown, List.rdropWhile_concat_pos _ _ _ happears]
    rfl
  have hshown : shown (rs ++ [r]) = shown rs ++ [r] :=
    List.rtakeWhile_concat_pos _ _ _ happears
  rw [issuedSinceShown, hbefore, hshown, issuedSince_append, getLast?_getD_shown]
  rfl

/-- The number of props that an issued descriptor carries is that of the copy some render made. -/
theorem number_of_mem_issuedSince {d : Shared Descriptor} {q : Shared Props}
    (hd : d ∈ issuedSince p rs) (hq : q ∈ d.value.props) :
    ∃ r ∈ rs, q.number = r.propsNumber := by
  induction rs using List.reverseRecOn with
  | nil => exact absurd hd List.not_mem_nil
  | append_singleton rs r ih =>
      rw [issuedSince_append, List.mem_append] at hd
      rcases hd with hd | hd
      · obtain ⟨r', hr', hnumber⟩ := ih hd
        exact ⟨r', List.mem_append_left _ hr', hnumber⟩
      · obtain ⟨c, -, rfl⟩ := eq_item_of_mem_issued hd
        obtain ⟨original, -, rfl⟩ := Option.map_eq_some_iff.1 hq
        exact ⟨r, List.mem_concat_self, rfl⟩

/-- The copy of the props that a render makes is none that was there before. -/
theorem copy_is_fresh (h : Allocated (rs ++ [r])) :
    (∀ r' ∈ rs ++ [r], ∀ q ∈ r'.context.props, q.number ≠ r.propsNumber) ∧
      ∀ d ∈ issuedSince p rs, ∀ q ∈ d.value.props, q.number ≠ r.propsNumber := by
  have hearlier : ∀ r' ∈ rs, r'.propsNumber < r.propsNumber := fun r' hr' =>
    (List.pairwise_append.1 h.copies).2.2 r' hr' r (List.mem_singleton_self r)
  refine ⟨fun r' hr' q hq => ?_, fun d hd q hq => ?_⟩
  · have hlt := h.originals r' hr' q hq
    rcases List.mem_append.1 hr' with hr' | hr'
    · exact (hlt.trans (hearlier r' hr')).ne
    · obtain rfl := List.mem_singleton.1 hr'
      exact hlt.ne
  · obtain ⟨r', hr', hnumber⟩ := number_of_mem_issuedSince hd hq
    rw [hnumber]
    exact (hearlier r' hr').ne

/-- After any number of renders the descriptor last issued is as the last render wants it. -/
theorem exists_getLast?_issuedSinceShown (hp : p.component = none) (hid : Identified (rs ++ [r]))
    (hr : r.component = some c) :
    ∃ d, (issuedSinceShown p (rs ++ [r])).getLast? = some d ∧ d.value.placement = r.placement ∧
      ∃ x ∈ components (rs ++ [r]), d.value.content = .component x ∧
        x.isEquivalentTo c = true := by
  have hc : c ∈ components (rs ++ [r]) := List.mem_filterMap.2 ⟨r, List.mem_concat_self, hr⟩
  induction rs using List.reverseRecOn generalizing r c with
  | nil =>
      rw [issuedSinceShown_append p hr, List.getLast?_nil, Option.getD_none,
        edits_of_appears hp hr]
      exact ⟨r.item c, rfl, rfl, c, hc, rfl, c.isEquivalentTo_self⟩
  | append_singleton rs q ih =>
      rw [issuedSinceShown_append p hr, List.getLast?_concat, Option.getD_some]
      obtain h | ⟨h, hplace, b, hb, hbc⟩ := issued_edits q hr
      · rw [h, List.getLast?_concat]
        exact ⟨r.item c, rfl, rfl, c, hc, rfl, c.isEquivalentTo_self⟩
      · -- Nothing is issued: what the render before wanted is what this one wants.
        rw [h, List.append_nil]
        have hsub : components (rs ++ [q]) ⊆ components (rs ++ [q] ++ [r]) :=
          List.filterMap_subset _ (List.subset_append_left ..)
        have hb' : b ∈ components (rs ++ [q]) := List.mem_filterMap.2 ⟨q, List.mem_concat_self, hb⟩
        obtain ⟨d, hd, hdplace, x, hx, hdx, hxb⟩ :=
          ih (fun a ha b hb => hid a (hsub ha) b (hsub hb)) hb hb'
        exact ⟨d, hd, hdplace.trans hplace, x, hsub hx, hdx, Component.isEquivalentTo_trans
          (hid x (hsub hx) b (hsub hb')) (hid b (hsub hb') c hc) hxb hbc⟩

/-- After any number of renders, the last one with a component `c`:

* the descriptor last issued since the component last appeared has the layout props of the last
  render, and its component counts `c` as rendering the same;
* the last render inserts the item if there was no component before, updates it if a layout prop
  changed or the component before does not count `c` as rendering the same, and does nothing
  otherwise;
* a descriptor that the last render issues is for `c` itself, and carries props exactly if the
  context has some: a copy that is neither the context's instance nor any other that a context had
  or an earlier descriptor carries. -/
theorem upToDate_of_renders (p : Render) (rs : List Render) (r : Render) (c : Component)
    (hp : p.component = none) (hid : Identified (rs ++ [r])) (hnumbers : Allocated (rs ++ [r]))
    (hr : r.component = some c) :
    (∃ d, (issuedSinceShown p (rs ++ [r])).getLast? = some d ∧ d.value.placement = r.placement ∧
      ∃ x, d.value.content = .component x ∧ x.isEquivalentTo c = true) ∧
    (∀ previous, rs.getLast?.getD p = previous →
      (previous.component = none → ∃ d, r.edits previous = ⟨[.insert 0 d]⟩) ∧
      ∀ b, previous.component = some b →
        (previous.placement ≠ r.placement ∨ b.isEquivalentTo c = false →
          ∃ d, r.edits previous = ⟨[.update 0 d]⟩) ∧
        (previous.placement = r.placement ∧ b.isEquivalentTo c = true → r.edits previous = {})) ∧
    ∀ d ∈ (r.edits (rs.getLast?.getD p)).issued, d.value.content = .component c ∧
      (r.context.props = none → d.value.props = none) ∧
      ∀ original, r.context.props = some original →
        ∃ copy, d.value.props = some copy ∧ copy.value = original.value ∧
          (∀ r' ∈ rs ++ [r], ∀ q ∈ r'.context.props, copy.same q = false) ∧
          ∀ earlier ∈ issuedSince p rs, ∀ q ∈ earlier.value.props, copy.same q = false := by
  refine ⟨?_, ?_, ?_⟩
  · obtain ⟨d, hd, hplace, x, -, hx, hxc⟩ := exists_getLast?_issuedSinceShown hp hid hr
    exact ⟨d, hd, hplace, x, hx, hxc⟩
  · rintro previous -
    refine ⟨fun hnone => ⟨_, edits_of_appears hnone hr⟩, fun b hb => ⟨fun h => ?_, fun h => ?_⟩⟩
    · exact ⟨_, edits_of_changed hb hr h⟩
    · exact edits_of_unchanged hb hr h.1 h.2
  · intro d hd
    obtain ⟨c', hc', rfl⟩ := eq_item_of_mem_issued hd
    obtain rfl : c = c' := Option.some.inj (hr.symm.trans hc')
    refine ⟨rfl, fun hnone => ?_, fun original horiginal => ?_⟩
    · rw [item, Context.copyProps, hnone]
      rfl
    · obtain ⟨hcontexts, hissued⟩ := copy_is_fresh (p := p) hnumbers
      refine ⟨⟨r.propsNumber, original.value⟩, ?_, rfl, fun r' hr' q hq => ?_, fun e he q hq => ?_⟩
      · rw [item, Context.copyProps, horiginal]
        rfl
      · exact decide_eq_false (hcontexts r' hr' q hq).symm
      · exact decide_eq_false (hissued e he q hq).symm

/-! ### An item that is two renders old -/

namespace Kept

def named : Component := ⟨0, .byName, "a"⟩

/-- Another component of the same name, which recognises itself only. -/
def label : Component := ⟨1, .byInstance, "a"⟩

def first : Render := {
  component := some named
  spanSize := some 1
  context := { props := some ⟨0, .ofList []⟩ }
  propsNumber := 1 }

def second : Render := {
  component := some label
  fullSpan := some false
  context := { props := some ⟨2, .ofList []⟩ }
  itemNumber := 1
  propsNumber := 3 }

def third : Render := { second with sticky := some false, itemNumber := 2, propsNumber := 4 }

theorem first_item_kept :
    ∃ d, (issuedSinceShown blank ([first, second] ++ [third])).getLast? = some d ∧
      d = first.item named ∧ d.value.placement = third.placement ∧
      named.isEquivalentTo label = true ∧ third.edits second = {} := by
  obtain ⟨⟨d, hd, hplace, x, hx, hlabel⟩, hedits, -⟩ :=
    upToDate_of_renders blank [first, second] third label rfl (by decide)
      ⟨by decide, by decide⟩ rfl
  have hfirst : d = first.item named := Option.some.inj (hd.symm.trans (by decide))
  subst hfirst
  obtain rfl : named = x := Content.component.inj hx
  exact ⟨_, hd, rfl, hplace, hlabel, ((hedits second rfl).2 label rfl).2 (by decide)⟩

end Kept

end Section

end Recycler

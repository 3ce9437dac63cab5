import Recycler.Proofs.Session.Sound

/-!
# What becomes of requests and layouts

What can be said of a request or a layout by the run that it takes part in: when the request began
(`Began`) and came to its end (`Validates`), whether its layout was settled (`Settles`), or, handed
over to be made in the background, came to nothing (`Drops`). Each of these lasts when the run goes
on, and a layout in the background is `Tracked` all along.
-/

namespace Recycler

/-- Whether a layout is still to be settled. -/
def Stage.isAhead : Stage → Bool
  | .enter | .gate _ | .measure | .settle _ => true
  | _ => false

/-- Whether a layout was settled. -/
def Stage.isSettled : Stage → Bool
  | .notifyMeasured .. | .notifyReady .. | .deliver (.ok _) => true
  | _ => false

namespace Session

/-- A layout in the background is still to be settled. -/
def Posted (s : Session) (l : Layout) : Prop :=
  s.store.Waits l ∨ ∃ j stage, stage.isAhead ∧ .layout l .background stage ∈ s.work j

/-- A layout is settled on its tree. -/
def Settles (s : Session) (ms : List Moment) (l : Layout) : Prop :=
  ∃ bs cs size, s.runActs ms = bs ++ .settleLayout l size :: cs ∧ (s.store.acts bs).Built l.tree

/-- A layout is settled on its tree with a certain size. -/
def SettlesTo (s : Session) (ms : List Moment) (l : Layout) (size : Size) : Prop :=
  ∃ bs cs, s.runActs ms = bs ++ .settleLayout l size :: cs ∧ (s.store.acts bs).Built l.tree

/-- A layout in the background comes to nothing: there is a moment in which it is handed over or
still to be settled, and after which it is neither to be settled nor was settled. -/
def Drops (s : Session) (ms : List Moment) (l : Layout) : Prop :=
  ∃ ns m ks t t', ms = ns ++ m :: ks ∧ s.follow? ns = some t ∧ t.next? m = some t' ∧
    (t.Posted l ∨ ∃ q, .enqueue q l ∈ t.momentActs m) ∧ ¬ t'.Posted l ∧ ¬ t.Settles [m] l

/-- A run comes by `t`, where a request begins with the descriptor of its holder, and goes on with
`ns`. -/
structure Began (o : Session) (ms : List Moment) (call : Call) (item : Shared Descriptor)
    (t : Session) (ns : List Moment) : Prop where
  run : ∃ ks, ms = ks ++ ns ∧ o.follow? ks = some t
  opened : ∃ i, t.top? i = some (.openRequest call)
  item : ∃ x, t.store.holders[call.holder]? = some x ∧ x.state.item = some item

/-- The last step of a request comes next. -/
def Concludes (s : Session) (m : Moment) (r : Request) : Prop :=
  ∃ i, m = .carry i ∧ ((∃ l size, s.top? i = some (.layout l (.commit r) (.deliver (.ok size)))) ∨
    s.top? i = some (.confirm r))

/-- A request comes to its end, and its holder is valid from then on. -/
def Validates (s : Session) (ns : List Moment) (r : Request) : Prop :=
  ∃ us m vs t t', ns = us ++ m :: vs ∧ s.follow? us = some t ∧ t.Concludes m r ∧
    t.next? m = some t' ∧ ∀ ws u, ws <+: vs → t'.follow? ws = some u →
      u.store.holders[r.call.holder]?.any (·.state.valid)

variable {o s s' t : Session} {ms ns : List Moment} {m : Moment} {l : Layout} {i h : Nat}
  {f g : Frame} {call : Call} {item : Shared Descriptor} {r : Request} {x y : Holder}

/-! ## One more moment -/

theorem follow?_concat (hs : s.follow? ms = some t) (h : t.next? m = some s') :
    s.follow? (ms ++ [m]) = some s' := by
  rw [follow?_append, hs, Option.bind_some, follow?_cons, h]
  rfl

theorem runActs_concat (hs : s.follow? ms = some t) (h : t.next? m = some s') :
    s.runActs (ms ++ [m]) = s.runActs ms ++ t.momentActs m := by
  rw [runActs_append hs, runActs_cons h, runActs_nil, List.append_nil]

theorem unbroken_concat (hs : s.follow? ms = some t) (h : t.next? m = some s') :
    s.unbroken (ms ++ [m]) ↔ s.unbroken ms ∧ t.interrupts m = false := by
  rw [unbroken_append hs, unbroken_cons h, and_iff_left (unbroken_nil s')]

/-- What holds at the beginning and is kept by every moment holds at the end, where what is said of
a session may depend on how it came about. -/
theorem follow?_history_induction {P : List Moment → Session → Prop} (hnil : P [] o)
    (hstep : ∀ ms s m s', o.follow? ms = some s → s.next? m = some s' → P ms s → P (ms ++ [m]) s')
    (hrun : o.follow? ms = some s) : P ms s := by
  have hfrom (ks ns : List Moment) (t : Session) (hks : o.follow? ks = some t)
      (hns : t.follow? ns = some s) (ht : P ks t) : P (ks ++ ns) s := by
    induction ns generalizing ks t with
    | nil =>
        obtain rfl := Option.some.inj hns
        rwa [List.append_nil]
    | cons n ns ih =>
        obtain ⟨t', ht', hns⟩ := follow?_cons_eq_some.1 hns
        have hend := ih (ks ++ [n]) t' (follow?_concat hks ht') hns (hstep ks t n t' hks ht' ht)
        rwa [List.append_assoc, List.singleton_append] at hend
  exact hfrom [] ms o rfl hrun hnil

theorem Began.follow? (hb : Began o ms call item t ns) (hrun : o.follow? ms = some s) :
    t.follow? ns = some s := by
  obtain ⟨ks, rfl, hks⟩ := hb.run
  rwa [follow?_append, hks, Option.bind_some] at hrun

theorem Began.concat (hb : Began o ms call item t ns) (m : Moment) :
    Began o (ms ++ [m]) call item t (ns ++ [m]) := by
  obtain ⟨ks, rfl, hks⟩ := hb.run
  exact ⟨⟨ks, List.append_assoc .., hks⟩, hb.opened, hb.item⟩

theorem settles_iff : s.Settles ms l ↔ ∃ size, s.SettlesTo ms l size := by
  constructor
  · rintro ⟨bs, cs, size, hl⟩
    exact ⟨size, bs, cs, hl⟩
  · rintro ⟨size, bs, cs, hl⟩
    exact ⟨bs, cs, size, hl⟩

theorem SettlesTo.concat {size : Size} (hl : s.SettlesTo ms l size) (hs : s.follow? ms = some t)
    (h : t.next? m = some s') : s.SettlesTo (ms ++ [m]) l size := by
  obtain ⟨bs, cs, hacts, hbuilt⟩ := hl
  refine ⟨bs, cs ++ t.momentActs m, ?_, hbuilt⟩
  rw [runActs_concat hs h, hacts, List.append_assoc, List.cons_append]

theorem SettlesTo.after {size : Size} (hs : s.follow? ms = some t) (h : t.next? m = some s')
    (hl : t.SettlesTo [m] l size) : s.SettlesTo (ms ++ [m]) l size := by
  obtain ⟨bs, cs, hacts, hbuilt⟩ := hl
  rw [runActs_cons h, runActs_nil, List.append_nil] at hacts
  refine ⟨s.runActs ms ++ bs, cs, ?_, ?_⟩
  · rw [runActs_concat hs h, hacts, List.append_assoc]
  · rw [Store.acts_append, ← store_follow? hs]
    exact hbuilt

theorem Settles.concat (hl : s.Settles ms l) (hs : s.follow? ms = some t)
    (h : t.next? m = some s') : s.Settles (ms ++ [m]) l :=
  settles_iff.2 ((settles_iff.1 hl).imp fun _ hl => hl.concat hs h)

theorem Settles.after (hs : s.follow? ms = some t) (h : t.next? m = some s')
    (hl : t.Settles [m] l) : s.Settles (ms ++ [m]) l :=
  settles_iff.2 ((settles_iff.1 hl).imp fun _ hl => hl.after hs h)

theorem Drops.concat (hl : s.Drops ms l) (m : Moment) : s.Drops (ms ++ [m]) l := by
  obtain ⟨ns, m', ks, t, t', rfl, hdrop⟩ := hl
  exact ⟨ns, m', ks ++ [m], t, t', by rw [List.append_assoc, List.cons_append], hdrop⟩

theorem Drops.after (hs : s.follow? ms = some t) (hl : t.Drops ns l) : s.Drops (ms ++ ns) l := by
  obtain ⟨ks, m, vs, u, u', rfl, hu, hdrop⟩ := hl
  exact ⟨ms ++ ks, m, vs, u, u', (List.append_assoc ..).symm, follow?_trans hs hu, hdrop⟩

/-- What became of a layout in the background: it was settled or dropped in the run `ns` from `t`
to `s`, or is still to be settled. -/
def Tracked (t : Session) (ns : List Moment) (s : Session) (l : Layout) : Prop :=
  t.Settles ns l ∨ t.Drops ns l ∨ s.Posted l

/-- A layout that is handed over or still to be settled stays tracked. -/
theorem tracked_next? (h : s.next? m = some s')
    (hl : s.Posted l ∨ ∃ q, .enqueue q l ∈ s.momentActs m) : Tracked s [m] s' l := by
  by_cases hp : s'.Posted l
  · exact .inr (.inr hp)
  · by_cases hsettles : s.Settles [m] l
    · exact .inl hsettles
    · exact .inr (.inl ⟨[], m, [], s, s', rfl, rfl, h, hl, hp, hsettles⟩)

theorem Tracked.after (ht : t.follow? ns = some s) (h : s.next? m = some s')
    (hl : Tracked s [m] s' l) : Tracked t (ns ++ [m]) s' l := by
  rcases hl with hl | hl | hl
  · exact .inl (hl.after ht h)
  · exact .inr (.inl (hl.after ht))
  · exact .inr (.inr hl)

theorem Tracked.concat (hl : Tracked t ns s l) (ht : t.follow? ns = some s)
    (h : s.next? m = some s') : Tracked t (ns ++ [m]) s' l := by
  rcases hl with hl | hl | hl
  · exact .inl (hl.concat ht h)
  · exact .inr (.inl (hl.concat m))
  · exact (tracked_next? h (.inl hl)).after ht h

theorem Validates.concat (hv : t.Validates ns r) (ht : t.follow? ns = some s)
    (h : s.next? m = some s') (hvalid : s'.store.holders[r.call.holder]?.any (·.state.valid)) :
    t.Validates (ns ++ [m]) r := by
  obtain ⟨us, m', vs, u, u', rfl, hu, hc, hm', hall⟩ := hv
  refine ⟨us, m', vs ++ [m], u, u', by rw [List.append_assoc, List.cons_append], hu, hc, hm',
    fun ws w hws hw => ?_⟩
  rcases List.prefix_concat_iff.1 hws with rfl | hws
  · have hvs : u'.follow? vs = some s := by
      rwa [follow?_append, hu, Option.bind_some, follow?_cons, hm', Option.bind_some] at ht
    rw [follow?_concat hvs h] at hw
    obtain rfl := Option.some.inj hw
    exact hvalid
  · exact hall ws w hws hw

end Session

end Recycler

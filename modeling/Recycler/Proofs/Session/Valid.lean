import Recycler.Proofs.Session.Items
import Recycler.Proofs.Session.Rest
import Recycler.Proofs.Session.Tracking

/-!
# What stands behind a valid holder

A holder is valid by the last step of a request that was made for its descriptor and its tree. A
request that waits for its layout ends after the layout was settled. One in the background ends as
soon as its layout is handed over, so that what is behind the holder depends on what becomes of the
layout: it may be dropped, by a failure or a panic. Nor is there anything to keep a layout that was
asked for earlier from being settled on the tree later on.

`valid_of_quiet` says what is left when no layout is under way any more.
-/

namespace Recycler.Session

variable {o s s' t u : Session} {ms ns us vs : List Moment} {m : Moment} {l : Layout} {i h : Nat}
  {f g : Frame} {call : Call} {item : Shared Descriptor} {r : Request} {x y : Holder}

/-- What the run from `o` to `s` says of a frame. -/
def Accounts (o : Session) (ms : List Moment) (s : Session) : Frame → Prop
  | .claimTree call item .. => ∃ t ns, Began o ms call item t ns
  | .layout _ (.commit r) stage =>
    ∃ t ns, Began o ms r.call r.item t ns ∧ (stage.isSettled → t.Settles ns r.layout)
  | .confirm r =>
    r.call.background ∧ ∃ t ns, Began o ms r.call r.item t ns ∧ Tracked t ns s r.layout
  | _ => True

/-- A holder is valid by a request that was made for what it had in the moment `m` in the session
`u`, when the request came to its end. It has the tree still, and the descriptor unless an item
acquired it since then. -/
structure Backs (o : Session) (ms : List Moment) (s : Session) (x : Holder) (r : Request)
    (t : Session) (us : List Moment) (u : Session) (m : Moment) (vs : List Moment) : Prop where
  began : Began o ms r.call r.item t (us ++ m :: vs)
  reached : t.follow? us = some u
  concludes : u.Concludes m r
  had : ∃ y, u.store.holders[r.call.holder]? = some y ∧ y.state.item = some r.item ∧
    y.state.slot.tree? = some r.tree
  valid : ∀ ws v, ws <+: vs → u.follow? (m :: ws) = some v →
    v.store.holders[r.call.holder]?.any (·.state.valid)
  /-- It was not evicted, released, described anew or declared invalid since then. -/
  since : ∀ a ∈ u.runActs (m :: vs), a.voids r.call.holder = false
  item : x.state.item =
    (Store.lastGiven? r.call.holder u.store (u.runActs (m :: vs))).or (some r.item)
  component : r.item.value.component? = some r.component
  tree : x.state.slot.tree? = some r.tree
  layout : t.Settles (us ++ m :: vs) r.layout ∨
    (r.call.background ∧ Tracked t (us ++ m :: vs) s r.layout)

structure Accounted (o : Session) (ms : List Moment) (s : Session) : Prop where
  run : o.follow? ms = some s
  frames : ∀ j, ∀ f ∈ s.work j, Accounts o ms s f
  valid : ∀ h x, s.store.holders[h]? = some x → x.state.valid →
    ∃ r t us u m vs, r.call.holder = h ∧ Backs o ms s x r t us u m vs

/-! ## Frames -/

theorem Accounts.concat (ha : Accounts o ms s f) (hrun : o.follow? ms = some s)
    (h : s.next? m = some s') : Accounts o (ms ++ [m]) s' f := by
  cases f with
  | claimTree =>
      obtain ⟨t, ns, hb⟩ := ha
      exact ⟨t, _, hb.concat m⟩
  | layout l sequel stage =>
      cases sequel with
      | commit r =>
          obtain ⟨t, ns, hb, hsettled⟩ := ha
          exact ⟨t, _, hb.concat m, fun hs => (hsettled hs).concat (hb.follow? hrun) h⟩
      | _ => trivial
  | confirm r =>
      obtain ⟨hbg, t, ns, hb, htracked⟩ := ha
      exact ⟨hbg, t, _, hb.concat m, htracked.concat (hb.follow? hrun) h⟩
  | _ => trivial

/-- A layout in the background is handed over to a queue or carried out at once. -/
theorem handOver_cases (u : Store) (l : Layout) :
    (∃ q, handOverActs u l = [.enqueue q l] ∧ handOverFrames u l = []) ∨
      (handOverActs u l = [] ∧ handOverFrames u l = [.layout l .background .enter]) := by
  unfold handOverActs handOverFrames
  rcases (u.tree? l.tree).bind (·.config.policy.layoutOn) with _ | _ | q
  · exact .inr ⟨rfl, rfl⟩
  · exact .inr ⟨rfl, rfl⟩
  · exact .inl ⟨q, rfl, rfl⟩

/-- A request begins to be tracked when its layout is launched. -/
theorem accounts_launch {u : Store} (ns : List Moment) (h : s.next? m = some s')
    (hb : Began o (ms ++ [m]) r.call r.item t (ns ++ [m])) (ht : t.follow? ns = some s)
    (hframes : ∀ g ∈ launchFrames u r, g ∈ s'.work i)
    (hacts : ∀ a ∈ launchActs u r, a ∈ s.momentActs m) (hg : g ∈ launchFrames u r) :
    Accounts o (ms ++ [m]) s' g := by
  have hlater : r.call.background → Tracked t (ns ++ [m]) s' r.layout := by
    intro hbg
    rw [launchFrames, if_pos hbg] at hframes
    rw [launchActs, if_pos hbg] at hacts
    rcases handOver_cases u r.layout with ⟨q, ha, -⟩ | ⟨-, hf⟩
    · rw [ha] at hacts
      exact (tracked_next? h (.inr ⟨q, hacts _ List.mem_cons_self⟩)).after ht h
    · rw [hf] at hframes
      exact .inr (.inr (.inr ⟨i, .enter, rfl, hframes _ List.mem_cons_self⟩))
  unfold launchFrames at hg
  split at hg
  · next hbg =>
      rcases List.mem_append.1 hg with hg | hg
      · rcases handOver_cases u r.layout with ⟨q, -, hf⟩ | ⟨-, hf⟩
        · rw [hf] at hg
          cases hg
        · rw [hf] at hg
          obtain rfl := List.mem_singleton.1 hg
          trivial
      · obtain rfl := List.mem_singleton.1 hg
        exact ⟨hbg, t, _, hb, hlater hbg⟩
  · obtain rfl := List.mem_singleton.1 hg
    exact ⟨t, _, hb, fun hs => Bool.noConfusion hs⟩

theorem accounts_opening (hacc : Accounted o ms s) (h : s.next? (.carry i) = some s')
    (hf : s.top? i = some (.openRequest call))
    (hframes : ∀ g ∈ openingFrames s.store call, g ∈ s'.work i)
    (hg : g ∈ openingFrames s.store call) : Accounts o (ms ++ [.carry i]) s' g := by
  have hacts := momentActs_carry hf
  have hbegan {item : Shared Descriptor} {x : Holder}
      (hx : s.store.holders[call.holder]? = some x) (hitem : x.state.item = some item) :
      Began o (ms ++ [.carry i]) call item s [.carry i] :=
    ⟨⟨ms, rfl, hacc.run⟩, ⟨i, hf⟩, x, hx, hitem⟩
  unfold openingFrames at hframes hg
  split at hg
  · next u r ho =>
      obtain ⟨rfl, -, -, x, hx, hitem⟩ := live?_of_openRequest (congrArg Prod.snd ho)
      refine accounts_launch (i := i) [] h (hbegan hx hitem) rfl ?_ (fun a ha => ?_) hg
      · simpa only [ho] using hframes
      · rw [hacts]
        refine List.mem_cons_of_mem _ ?_
        simpa only [off, modifyThread, ho] using ha
  · next ho =>
      obtain ⟨-, x, hx, hitem, -⟩ := of_vacant_openRequest (congrArg Prod.snd ho)
      obtain rfl := List.mem_singleton.1 hg
      exact ⟨s, _, hbegan hx hitem⟩
  · next ho =>
      obtain ⟨-, x, hx, hitem, -⟩ := of_vacant_openRequest (congrArg Prod.snd ho)
      simp only [List.mem_cons, List.not_mem_nil, or_false] at hg
      rcases hg with rfl | rfl
      · trivial
      · exact ⟨s, _, hbegan hx hitem⟩
  · cases hg

theorem accounts_claim (hacc : Accounted o ms s) (h : s.next? (.carry i) = some s')
    {component : Component} {handle : WeakHandle} {listener : Option MeasureListener}
    (hf : s.top? i = some (.claimTree call item component handle listener))
    (hframes : ∀ g ∈ claimFrames s.store call item component handle listener, g ∈ s'.work i)
    (hg : g ∈ claimFrames s.store call item component handle listener) :
    Accounts o (ms ++ [.carry i]) s' g := by
  have hacts := momentActs_carry hf
  obtain ⟨t, ns, hb⟩ := hacc.frames i _ (mem_work_of_top? hf rfl)
  have hrun := hb.follow? hacc.run
  unfold claimFrames at hframes hg
  split at hg
  · next u tree ho =>
      refine accounts_launch (i := i) (r := ⟨call, item, component, tree⟩) ns h (hb.concat _) hrun
        ?_ (fun a ha => ?_) hg
      · simpa only [ho] using hframes
      · rw [hacts]
        refine List.mem_cons_of_mem _ ?_
        simpa only [off, modifyThread, ho] using ha
  · next u config tree ho =>
      refine accounts_launch (i := i) (r := ⟨call, item, component, tree⟩) ns h (hb.concat _) hrun
        ?_ (fun a ha => ?_) hg
      · simpa only [ho] using hframes
      · rw [hacts]
        refine List.mem_cons_of_mem _ ?_
        simpa only [off, modifyThread, ho] using ha
  · cases hg

/-- A layout is settled by the step after which it counts as settled. -/
theorem accounts_layout (hacc : Accounted o ms s) (hsound : s.Sound)
    (h : s.next? (.carry i) = some s') {sequel : Sequel} {stage stage' : Stage}
    (hf : s.top? i = some (.layout l sequel stage)) (hnext : stage.Next stage') :
    Accounts o (ms ++ [.carry i]) s' (.layout l sequel stage') := by
  have hacts := momentActs_carry hf
  cases sequel with
  | commit r =>
      obtain ⟨t, ns, hb, hsettled⟩ := hacc.frames i _ (mem_work_of_top? hf rfl)
      have hrun := hb.follow? hacc.run
      refine ⟨t, _, hb.concat _, fun hs => ?_⟩
      cases hnext with
      | settled size ready =>
          obtain ⟨hbuilt, rfl, -⟩ := hsound.top hf
          refine Settles.after hrun h ⟨[], [], size, ?_, hbuilt⟩
          rw [runActs_cons h, runActs_nil, List.append_nil, hacts]
          rfl
      | toldMeasured size ready => exact (hsettled rfl).concat hrun h
      | toldReady size ready => exact (hsettled rfl).concat hrun h
      | _ => cases hs
  | _ => trivial

theorem accounts_ensues (hacc : Accounted o ms s) (hsound : s.Sound)
    (h : s.next? (.carry i) = some s') (hf : s.top? i = some f) {fs : List Frame}
    (he : Ensues (s.off i) f fs) (hframes : ∀ g ∈ fs, g ∈ s'.work i) (hg : g ∈ fs) :
    Accounts o (ms ++ [.carry i]) s' g := by
  cases he with
  | nothing => cases hg
  | opened call => exact accounts_opening hacc h hf hframes hg
  | claimed call item component handle listener => exact accounts_claim hacc h hf hframes hg
  | layout l sequel hnext =>
      obtain rfl := List.mem_singleton.1 hg
      exact accounts_layout hacc hsound h hf hnext
  | script step rest =>
      simp only [List.mem_cons, List.not_mem_nil, or_false] at hg
      rcases hg with rfl | rfl | rfl <;> trivial
  | dequeued remaining count hq hl =>
      simp only [List.mem_cons, List.not_mem_nil, or_false] at hg
      rcases hg with rfl | rfl <;> trivial
  | served hq hl =>
      simp only [List.mem_cons, List.not_mem_nil, or_false] at hg
      rcases hg with rfl | rfl <;> trivial
  | _ =>
      obtain rfl := List.mem_singleton.1 hg
      trivial

theorem Accounted.frames_next? (hacc : Accounted o ms s) (hsound : s.Sound)
    (h : s.next? m = some s') {j : Nat} (hg : g ∈ s'.work j) : Accounts o (ms ++ [m]) s' g := by
  have hold {k : Nat} (hg : g ∈ s.work k) : Accounts o (ms ++ [m]) s' g :=
    (hacc.frames k g hg).concat hacc.run h
  cases happens_of_next? h with
  | @give i c hi =>
      rcases mem_work_push hg with hg | hg
      · simp only [List.mem_cons, List.not_mem_nil, or_false] at hg
        rcases hg with rfl | rfl <;> trivial
      · exact hold hg
  | @carry i f _ hf ht =>
      rcases ht.mem_work hg with hg | hg | ⟨rfl, fs, hfs, hg, hin⟩
      · exact hold ((work_off_suffix hf j).subset hg)
      · cases hg <;> trivial
      · exact accounts_ensues hacc hsound h hf hfs hin hg
  | look k => exact hold (((s.like_view? k).work j) ▸ hg)

/-! ## Holders -/

/-- A holder is valid because it was before, or by the last step of a request. -/
theorem valid_of_carry (hf : s.top? i = some f) (hx : s.store.holders[h]? = some x) (hb : x.Housed)
    (hy : (s.store.acts (s.momentActs (.carry i))).holders[h]? = some y) (hv : y.state.valid) :
    y.state.slot.tree? = x.state.slot.tree? ∧
      (∀ a ∈ s.momentActs (.carry i), a.voids h = false) ∧
      (x.state.valid ∨ ∃ r, r.call.holder = h ∧ x.state.isCurrent r.item r.tree ∧
        s.Concludes (.carry i) r) := by
  rw [momentActs_carry hf] at hy ⊢
  by_cases hval : ∃ a ∈ (s.off i).frameActs i f, a.validates h
  · obtain ⟨a, ha, hval⟩ := hval
    have hlic := licensed ha
    cases a with
    | commitLayout r size =>
        obtain ⟨l, rfl⟩ := hlic
        have hstep := s.store.holders_act (.commitLayout r size) hx
        obtain rfl := Option.some.inj (hstep.symm.trans hy)
        refine ⟨?_, fun a ha => by obtain rfl := List.mem_singleton.1 ha; rfl, ?_⟩
        · rw [Store.Act.onHolder]
          split <;> rfl
        · rw [Store.Act.onHolder] at hv
          split at hv
          · next hc => exact .inr ⟨r, hc.1, hc.2, i, rfl, .inl ⟨l, size, hf⟩⟩
          · exact .inl hv
    | confirmLayout r =>
        obtain rfl : f = .confirm r := hlic
        have hstep := s.store.holders_act (.confirmLayout r) hx
        obtain rfl := Option.some.inj (hstep.symm.trans hy)
        refine ⟨?_, fun a ha => by obtain rfl := List.mem_singleton.1 ha; rfl, ?_⟩
        · rw [Store.Act.onHolder]
          split <;> rfl
        · rw [Store.Act.onHolder] at hv
          split at hv
          · next hc => exact .inr ⟨r, hc.1, hc.2, i, rfl, .inr hf⟩
          · exact .inl hv
    | _ => cases hval
  · have hnone : ∀ a ∈ (s.off i).frameActs i f, a.validates h = false := fun a ha => by
      rw [← Bool.not_eq_true]
      exact fun hval' => hval ⟨a, ha, hval'⟩
    obtain ⟨hvalid, htree, hvoids⟩ := Store.valid_acts hx hb hnone hy hv
    exact ⟨htree, hvoids, .inl hvalid⟩

theorem exists_of_valid (hf : s.top? i = some f)
    (hy : (s.store.acts (s.momentActs (.carry i))).holders[h]? = some y) (hv : y.state.valid) :
    ∃ x, s.store.holders[h]? = some x := by
  rw [momentActs_carry hf] at hy
  rcases (s.off i).acquires_alone i f with ⟨p, item, policy, factory, hone⟩ | hnone
  · rw [hone, Store.acts_cons, Store.acts_nil] at hy
    cases hx : s.store.holders[h]? with
    | some x => exact ⟨x, rfl⟩
    | none =>
        obtain ⟨p, item', policy, factory, -, -, -, rfl⟩ := s.store.of_getElem?_act hx hy
        cases hv
  · exact Store.exists_of_acts hnone hy

/-- A holder that is not released in a moment has the descriptor that it was given last. -/
theorem item_next? (h' : s.next? m = some s') (hx : s.store.holders[h]? = some x)
    (hy : s'.store.holders[h]? = some y) (hvoids : ∀ a ∈ s.momentActs m, a.voids h = false) :
    y.state.item = (Store.lastGiven? h s.store (s.momentActs m)).or x.state.item := by
  obtain ⟨z, hz, hitem⟩ :=
    Store.item_acts hx fun a ha => Store.Act.resets_eq_false (hvoids a ha)
  rw [← store_next? h'] at hz
  obtain rfl := Option.some.inj (hz.symm.trans hy)
  exact hitem

/-- The last step of a request makes the holder valid on account of the request. -/
theorem backs_of_concludes (hacc : Accounted o ms s) (hsound : s.Sound) (hcat : s.Catalogued)
    (h' : s.next? m = some s') (hx : s.store.holders[r.call.holder]? = some x)
    (hc : x.state.isCurrent r.item r.tree) (hr : s.Concludes m r)
    (hy : s'.store.holders[r.call.holder]? = some y) (hv : y.state.valid)
    (hvoids : ∀ a ∈ s.momentActs m, a.voids r.call.holder = false)
    (htree : y.state.slot.tree? = x.state.slot.tree?) :
    ∃ t us, Backs o (ms ++ [m]) s' y r t us s m [] := by
  obtain ⟨hlive, item, hi, hsame⟩ := Holder.State.isCurrent_iff.1 hc
  obtain ⟨i, rfl, hf⟩ := hr
  have hacts : s.runActs [.carry i] = s.momentActs (.carry i) := by
    rw [runActs_cons h', runActs_nil, List.append_nil]
  have hbacks {f : Frame} {t : Session} {ns : List Moment} (hmem : f ∈ s.work i)
      (hfi : f.item? = some r.item) (hb : Began o ms r.call r.item t ns)
      (hcomponent : r.item.value.component? = some r.component)
      (hlayout : t.Settles (ns ++ [.carry i]) r.layout ∨
        (r.call.background ∧ Tracked t (ns ++ [.carry i]) s' r.layout)) :
      Backs o (ms ++ [.carry i]) s' y r t ns s (.carry i) [] := by
    have hitem : x.state.item = some r.item := by
      rw [hi, hcat.eq_of_same (.holder hx hi) (.frame hmem hfi) hsame]
    refine ⟨hb.concat _, hb.follow? hacc.run, ⟨i, rfl, hf⟩, ⟨x, hx, hitem, hlive⟩,
      fun ws v hws hfollow => ?_, hacts ▸ hvoids, ?_, hcomponent, htree.trans hlive, hlayout⟩
    · obtain rfl := List.prefix_nil.1 hws
      obtain rfl := Option.some.inj ((follow?_singleton h').symm.trans hfollow)
      rw [hy]
      exact hv
    · rw [hacts, item_next? h' hx hy hvoids, hitem]
  rcases hf with ⟨l, size, hf⟩ | hf
  · have hmem := mem_work_of_top? hf rfl
    obtain ⟨t, ns, hb, hsettled⟩ := hacc.frames i _ hmem
    exact ⟨t, ns, hbacks hmem rfl hb (hsound.top hf).2.2.1
      (.inl ((hsettled rfl).concat (hb.follow? hacc.run) h'))⟩
  · have hmem := mem_work_of_top? hf rfl
    obtain ⟨hbg, t, ns, hb, htracked⟩ := hacc.frames i _ hmem
    exact ⟨t, ns, hbacks hmem rfl hb (hsound.top hf).2.1
      (.inr ⟨hbg, htracked.concat (hb.follow? hacc.run) h'⟩)⟩

theorem Backs.follow? (hb : Backs o ms s x r t us u m vs) (hrun : o.follow? ms = some s) :
    u.follow? (m :: vs) = some s := by
  have hend := hb.began.follow? hrun
  rwa [follow?_append, hb.reached, Option.bind_some] at hend

theorem Backs.concat {n : Moment} (hb : Backs o ms s x r t us u m vs) (hrun : o.follow? ms = some s)
    (h' : s.next? n = some s') (hx : s.store.holders[r.call.holder]? = some x)
    (hy : s'.store.holders[r.call.holder]? = some y) (hv : y.state.valid)
    (hvoids : ∀ a ∈ s.momentActs n, a.voids r.call.holder = false)
    (htree : y.state.slot.tree? = x.state.slot.tree?) :
    Backs o (ms ++ [n]) s' y r t us u m (vs ++ [n]) := by
  have hfollow := hb.follow? hrun
  have hlast := follow?_concat hfollow h'
  have hacts := runActs_concat hfollow h'
  rw [List.cons_append] at hacts hlast
  refine ⟨?_, hb.reached, hb.concludes, hb.had, fun ws v hws hfollows => ?_, fun a ha => ?_, ?_,
    hb.component, htree.trans hb.tree, ?_⟩
  · have hb' := hb.began.concat n
    rwa [List.append_assoc, List.cons_append] at hb'
  · rcases List.prefix_concat_iff.1 hws with rfl | hws
    · obtain rfl := Option.some.inj (hlast.symm.trans hfollows)
      rw [hy]
      exact hv
    · exact hb.valid ws v hws hfollows
  · rw [hacts] at ha
    exact (List.mem_append.1 ha).elim (hb.since a) (hvoids a)
  · rw [hacts, Store.lastGiven?_append, ← store_follow? hfollow, Option.or_assoc, ← hb.item]
    exact item_next? h' hx hy hvoids
  · have ht := hb.began.follow? hrun
    rw [← List.cons_append, ← List.append_assoc]
    rcases hb.layout with hl | ⟨hbg, hl⟩
    · exact .inl (hl.concat ht h')
    · exact .inr ⟨hbg, hl.concat ht h'⟩

theorem Accounted.valid_next? (hacc : Accounted o ms s) (hsound : s.Sound) (hcat : s.Catalogued)
    (h' : s.next? m = some s') (hy : s'.store.holders[h]? = some y) (hv : y.state.valid) :
    ∃ r t us u n vs, r.call.holder = h ∧ Backs o (ms ++ [m]) s' y r t us u n vs := by
  have hkept (x : Holder) (hx : s.store.holders[h]? = some x) (hvx : x.state.valid)
      (hvoids : ∀ a ∈ s.momentActs m, a.voids h = false)
      (htree : y.state.slot.tree? = x.state.slot.tree?) :
      ∃ r t us u n vs, r.call.holder = h ∧ Backs o (ms ++ [m]) s' y r t us u n vs := by
    obtain ⟨r, t, us, u, n, vs, rfl, hb⟩ := hacc.valid h x hx hvx
    exact ⟨r, t, us, u, n, _, rfl, hb.concat hacc.run h' hx hy hv hvoids htree⟩
  have hstore := store_next? h'
  cases happens_of_next? h' with
  | give c hi => exact hkept y hy hv (fun a ha => nomatch ha) rfl
  | look k =>
      refine hkept y ?_ hv (fun a ha => nomatch ha) rfl
      rwa [hstore] at hy
  | @carry i f _ hf ht =>
      have hacts := hy
      rw [hstore] at hacts
      obtain ⟨x, hx⟩ := exists_of_valid hf hacts hv
      have hb : x.Housed := fun hvx => by
        obtain ⟨r, t, us, u, n, vs, -, hb⟩ := hacc.valid h x hx hvx
        rw [hb.tree]
        exact Option.some_ne_none _
      obtain ⟨htree, hvoids, hvx | ⟨r, rfl, hc, hr⟩⟩ := valid_of_carry hf hx hb hacts hv
      · exact hkept x hx hvx hvoids htree
      · obtain ⟨t, us, hb⟩ := backs_of_concludes hacc hsound hcat h' hx hc hr hy hv hvoids htree
        exact ⟨r, t, us, s, _, [], rfl, hb⟩

/-! ## Runs -/

theorem accounted_ofProgram (p : Program) : Accounted (ofProgram p) [] (ofProgram p) where
  run := rfl
  frames j f hf := by
    rw [work_ofProgram] at hf
    cases hf
  valid h x hx := by cases hx

theorem Accounted.follow? (hacc : Accounted o ns s) (hr : s.Reachable)
    (h' : s.follow? ms = some s') : Accounted o (ns ++ ms) s' := by
  induction ms generalizing s ns with
  | nil =>
      obtain rfl := Option.some.inj h'
      rwa [List.append_nil]
  | cons m ms ih =>
      obtain ⟨t, ht, h'⟩ := follow?_cons_eq_some.1 h'
      have hacc' : Accounted o (ns ++ [m]) t :=
        ⟨follow?_concat hacc.run ht, fun j f hf => hacc.frames_next? hr.sound ht hf,
          fun h x hx hv => hacc.valid_next? hr.sound hr.catalogued ht hx hv⟩
      have hend := ih hacc' (hr.follow? (follow?_singleton ht)) h'
      rwa [List.append_assoc, List.singleton_append] at hend

theorem accounted_of_run {p : Program} (hrun : (ofProgram p).follow? ms = some s) :
    Accounted (ofProgram p) ms s :=
  (accounted_ofProgram p).follow? ⟨p, [], rfl⟩ hrun

/-! ## Unbroken runs -/

/-- In an unbroken run a holder in a pool is at rest, hence not valid. -/
theorem Orderly.not_idles_of_valid (ho : s.Orderly) {q : Nat}
    (hv : s.store.holders[h]?.any (·.state.valid)) : ¬ s.store.Idles q h := by
  intro hi
  obtain ⟨g, hx⟩ := (ho.rested.idle q h hi).fresh
  rw [hx] at hv
  cases hv

theorem Concludes.unoffered (hc : s.Concludes m r) : s.store.Unoffered h (s.momentActs m) := by
  obtain ⟨i, rfl, ⟨l, size, hf⟩ | hf⟩ := hc
  · rw [momentActs_carry hf]
    exact ⟨rfl, trivial⟩
  · rw [momentActs_carry hf]
    exact ⟨rfl, trivial⟩

/-- In an unbroken run no item acquires a holder while it is valid, so that it has still the
descriptor that it is valid for. -/
theorem Backs.kept {p : Program} (hb : Backs (ofProgram p) ms s x r t us u m vs)
    (hrun : (ofProgram p).follow? ms = some s) (hu : (ofProgram p).unbroken ms) :
    u.store.Unoffered r.call.holder (u.runActs (m :: vs)) ∧ x.state.item = some r.item := by
  obtain ⟨ks, hms, hks⟩ := hb.began.run
  have hreach : (ofProgram p).follow? (ks ++ us) = some u := follow?_trans hks hb.reached
  rw [hms, ← List.append_assoc] at hu
  obtain ⟨hbefore, hafter⟩ := (unbroken_append hreach).1 hu
  have ho : u.Orderly := ⟨p, _, hbefore, hreach⟩
  obtain ⟨v, hv, hrest⟩ := follow?_cons_eq_some.1 (hb.follow? hrun)
  obtain ⟨hm, hafter⟩ := (unbroken_cons hv).1 hafter
  have hnone : u.store.Unoffered r.call.holder (u.runActs (m :: vs)) := by
    rw [runActs_cons hv, Store.unoffered_append, ← store_next? hv]
    refine ⟨hb.concludes.unoffered, unoffered_runActs hrest fun ws w hws hw q => ?_⟩
    exact ((ho.next? hm hv).of_follow?_initial hafter hws hw).not_idles_of_valid
      (hb.valid ws w hws (follow?_cons_eq_some.2 ⟨v, hv, hw⟩))
  refine ⟨hnone, ?_⟩
  rw [hb.item, Store.lastGiven?_eq_lastDescribed? hnone, Store.lastDescribed?_eq_none hb.since]
  rfl

/-! ## Quiet sessions -/

/-- No layout is in progress, and none waits for its turn. -/
structure Quiet (s : Session) : Prop where
  idle : ∀ j, ∀ f ∈ s.work j, f.isLayout = false
  empty : ∀ l, ¬ s.store.Waits l

theorem quiet_iff : s.Quiet ↔
    (∀ t ∈ s.threads, ∀ f ∈ t.stack, f.isLayout = false) ∧
      ∀ queue ∈ s.store.queues, queue.waiting = [] := by
  constructor
  · intro hq
    constructor
    · intro t ht f hf
      obtain ⟨j, hj⟩ := List.mem_iff_getElem?.1 ht
      cases f with
      | layout l sequel stage =>
          refine hq.idle j _ ?_
          rw [work, hj]
          exact List.mem_filter.2 ⟨hf, rfl⟩
      | _ => rfl
    · intro queue hqueue
      rw [List.eq_nil_iff_forall_not_mem]
      exact fun l hl => hq.empty l ⟨queue, hqueue, hl⟩
  · rintro ⟨hidle, hempty⟩
    constructor
    · intro j f hf
      obtain ⟨hf, -⟩ := List.mem_filter.1 hf
      cases ht : s.threads[j]? with
      | none =>
          rw [ht] at hf
          cases hf
      | some t =>
          rw [ht] at hf
          exact hidle t (List.mem_of_getElem? ht) f hf
    · rintro l ⟨queue, hqueue, hl⟩
      rw [hempty queue hqueue] at hl
      cases hl

instance (s : Session) : Decidable s.Quiet := decidable_of_iff _ quiet_iff.symm

theorem Quiet.not_posted (hq : s.Quiet) (l : Layout) : ¬ s.Posted l := by
  rintro (hl | ⟨j, stage, -, hl⟩)
  · exact hq.empty l hl
  · exact Bool.noConfusion (hq.idle j _ hl)

/-- A tree has a layout since one was settled on it in the run `ns`, and shows the root of that one
or of a layout that was settled later. -/
theorem shown_of_settles (hl : t.Settles ns l) (ht : t.follow? ns = some s) :
    ∃ as bs size tree, t.runActs ns = as ++ .settleLayout l size :: bs ∧
      s.store.tree? l.tree = some tree ∧ tree.committed.isSome ∧ (tree.root = l.root ∨
        ∃ l' size', .settleLayout l' size' ∈ bs ∧ l'.tree = l.tree ∧ tree.root = l'.root) := by
  obtain ⟨as, bs, size, hacts, hbuilt⟩ := hl
  obtain ⟨tree, htree, hshown⟩ := (t.store.acts as).shown_of_settled size hbuilt [] bs
  refine ⟨as, bs, size, tree, hacts, ?_, hshown⟩
  rw [store_follow? ht, hacts, Store.acts_append]
  exact htree

theorem Backs.validates (hb : Backs o ms s x r t us u m vs) (hrun : o.follow? ms = some s) :
    t.Validates (us ++ m :: vs) r := by
  obtain ⟨v, hv, -⟩ := follow?_cons_eq_some.1 (hb.follow? hrun)
  exact ⟨us, m, vs, u, v, rfl, hb.reached, hb.concludes, hv,
    fun ws w hws hw => hb.valid ws w hws (follow?_cons_eq_some.2 ⟨v, hv, hw⟩)⟩

/-- When no layout is under way, a valid holder has a descriptor with a component and a tree for
which a request was made, by the last step of which it is valid. Since the request began its layout
was settled on the tree, which shows the component unless another layout was settled later; or the
layout was one in the background and was dropped. -/
theorem valid_of_quiet {p : Program} (hrun : (ofProgram p).follow? ms = some s)
    (hu : (ofProgram p).unbroken ms) (hq : s.Quiet) (hx : s.store.holders[h]? = some x)
    (hv : x.state.valid) :
    ∃ r t ns, r.call.holder = h ∧ Began (ofProgram p) ms r.call r.item t ns ∧
      t.Validates ns r ∧ x.state.item = some r.item ∧
      r.item.value.component? = some r.component ∧ x.state.slot.tree? = some r.tree ∧
      ((∃ as bs size tree, t.runActs ns = as ++ .settleLayout r.layout size :: bs ∧
          s.store.tree? r.tree = some tree ∧ tree.committed.isSome ∧ (tree.root = r.component ∨
            ∃ l size, .settleLayout l size ∈ bs ∧ l.tree = r.tree ∧ tree.root = l.root)) ∨
        r.call.background ∧ t.Drops ns r.layout) := by
  obtain ⟨r, t, us, u, m, vs, hh, hb⟩ := (accounted_of_run hrun).valid h x hx hv
  refine ⟨r, t, _, hh, hb.began, hb.validates hrun, (hb.kept hrun hu).2, hb.component, hb.tree, ?_⟩
  have ht := hb.began.follow? hrun
  rcases hb.layout with hl | ⟨hbg, hl | hl | hl⟩
  · exact .inl (shown_of_settles hl ht)
  · exact .inl (shown_of_settles hl ht)
  · exact .inr ⟨hbg, hl⟩
  · exact absurd hl (hq.not_posted _)

/-- A holder has a tree that was laid out and shows the component of its descriptor. -/
def Shows (s : Session) (h : Nat) : Prop :=
  ∃ x ∈ s.store.holders[h]?, ∃ k ∈ x.state.slot.tree?, ∃ tree ∈ s.store.tree? k,
    tree.committed.isSome ∧ x.state.item.bind (·.value.component?) = some tree.root

instance (s : Session) (h : Nat) : Decidable (s.Shows h) :=
  inferInstanceAs (Decidable (∃ _ ∈ _, ∃ _ ∈ _, ∃ _ ∈ _, _))

/-! ### Valid holders that show something else

A layout in the background fails after its holder was declared valid. A layout of the first
descriptor waits at a gate, while the holder is given another one and laid out.
-/

namespace Unshown

def upToHolder : List Moment :=
  told (.component "c" "c" .byName) ++ told (.item "d" (.component "c") []) ++
    told (.component "k" "k" .byName) ++ told (.item "other" (.component "k") []) ++
    told (.engine "e" .standard {}) ++ told (.acquire "d" [] none "shared" (some "h"))

def failing : List Moment :=
  upToHolder ++ told (.onEngine "e" (.arm "boom")) ++
    [.give mainThread (.layout default "e" "" "h" true)] ++ List.replicate 7 (.carry mainThread)

def overtaken : List Moment :=
  upToHolder ++ told (.gate "g") ++ told (.setGate (some "g") "e") ++
    told (.spawn (.layout default "e" "" "h" false) (some "j")) ++ List.replicate 4 (.carry 1) ++
    told (.setGate none "e") ++ told (.onHolder "h" (.describe "other")) ++
    [.give mainThread (.layout default "e" "" "h" false)] ++
    List.replicate 9 (.carry mainThread) ++ told (.openGate "g") ++ List.replicate 7 (.carry 1)

def afterFailure : Session :=
  ((ofProgram { steps := [], scripts := [] }).follow? failing).get (by decide)

def afterLateLayout : Session :=
  ((ofProgram { steps := [], scripts := [] }).follow? overtaken).get (by decide)

theorem valid_not_shown :
    (afterFailure.Reachable ∧ afterFailure.Quiet ∧
        afterFailure.store.holders[0]?.any (·.state.valid) ∧ ¬ afterFailure.Shows 0) ∧
      afterLateLayout.Reachable ∧ afterLateLayout.Quiet ∧
        afterLateLayout.store.holders[0]?.any (·.state.valid) ∧ ¬ afterLateLayout.Shows 0 :=
  ⟨⟨⟨_, failing, (Option.some_get _).symm⟩, by decide⟩,
    ⟨_, overtaken, (Option.some_get _).symm⟩, by decide⟩

/-- The request behind the holder whose tree was never laid out is one whose layout was dropped. -/
theorem afterFailure_dropped : ∃ (r : Request) (t : Session) (ns : List Moment),
    r.call.holder = 0 ∧ t.Validates ns r ∧ r.call.background ∧ t.Drops ns r.layout := by
  have hrun : (ofProgram { steps := [], scripts := [] }).follow? failing = some afterFailure :=
    (Option.some_get _).symm
  have hx : afterFailure.store.holders[0]? =
      some ((afterFailure.store.holders[0]?).get (by decide)) := (Option.some_get _).symm
  obtain ⟨r, t, ns, hh, -, hvalidates, -, -, htree, hshown | hdrop⟩ :=
    valid_of_quiet hrun (by decide) (by decide) hx (by decide)
  · obtain ⟨-, -, -, tree, -, hlive, hcommitted, -⟩ := hshown
    have htree : (⟨0, 0⟩ : TreeRef) = r.tree := Option.some.inj htree
    have hnone : (afterFailure.store.tree? ⟨0, 0⟩).any (·.committed.isSome) = false := by decide
    rw [htree, hlive, Option.any_some, hcommitted] at hnone
    cases hnone
  · exact ⟨r, t, ns, hh, hvalidates, hdrop⟩

end Unshown

end Recycler.Session

import Recycler.Proofs.Session.Reckoning
import Recycler.Proofs.Session.Refusal

/-!
# Requests whose layout fails

A request that waits for its layout may be told that there is none. By then it has recorded its
constraints, and maybe built a tree, which took over the state that was parked for it; nothing is
taken back. If nobody else changed the holder in the meantime, the holder is as it was but for this
(`Window.failed`).
-/

namespace Recycler

/-- Whether a layout did not begin yet, or failed. -/
def Stage.unbegun : Stage → Bool
  | .enter | .deliver (.error _) => true
  | _ => false

/-- What a request returns that waited for its layout. -/
def Reply.ofOutcome : Except Failure Size → Reply
  | .ok result => .size (some result)
  | .error failure => .trouble (.failure failure)

namespace Store

/-- The holder `x` of a request is ready for the layout: the constraints are recorded and the tree
is in use. It is the tree that was in use before, or a new one that took over what was parked. -/
structure Readied (s : Store) (x : Holder) (r : Request) (s' : Store) : Prop where
  holder : s'.holders[r.call.holder]? = some { x with
    state := { x.state with requested := some r.call.bounds, slot := .live r.tree } }
  tree : x.state.slot = .live r.tree ∨ x.state.slot.tree? = none ∧ ¬ s.Built r.tree ∧
    ∃ tree listener, s'.tree? r.tree = some tree ∧
      tree.config = treeConfig x.state r.item r.component listener

/-- A frame of a request on the holder `x`, which began on the store `s`, with the store as it is
now. -/
inductive Readies (s : Store) (call : Call) (x : Holder) (s' : Store) : Frame → Prop
  | claim {item : Shared Descriptor} {component : Component} (listener : Option MeasureListener)
      (hitem : x.state.item = some item) (hcomponent : item.value.component? = some component)
      (hslot : x.state.slot.tree? = none)
      (hholder : s'.holders[call.holder]? = some { x with state := x.state.request call.bounds }) :
      Readies s call x s' (.claimTree call item component (x.downgrade call.holder) listener)
  | layout {r : Request} (stage : Stage) (hcall : r.call = call)
      (hitem : x.state.item = some r.item)
      (hcomponent : r.item.value.component? = some r.component)
      (hready : stage.unbegun → s.Readied x r s') :
      Readies s call x s' (.layout r.layout (.commit r) stage)

variable {s s' s'' : Store} {call : Call} {x : Holder} {f : Frame} {r : Request}

/-- What is done elsewhere leaves a holder as ready as it was. -/
theorem Readied.acts (h : s.Readied x r s') (as : List Act)
    (hholder : (s'.acts as).holders[r.call.holder]? = s'.holders[r.call.holder]?) :
    s.Readied x r (s'.acts as) where
  holder := hholder.trans h.holder
  tree := by
    refine h.tree.imp_right fun ⟨hslot, hnew, tree, listener, htree, hconfig⟩ => ?_
    obtain ⟨tree', htree', hconfig'⟩ := config_acts htree as
    exact ⟨hslot, hnew, tree', listener, htree', hconfig'.trans hconfig⟩

theorem Readies.acts (h : s.Readies call x s' f) (as : List Act)
    (hholder : (s'.acts as).holders[call.holder]? = s'.holders[call.holder]?) :
    s.Readies call x (s'.acts as) f := by
  cases h with
  | claim listener hitem hcomponent hslot hx =>
      exact .claim listener hitem hcomponent hslot (hholder.trans hx)
  | layout stage hcall hitem hcomponent hready =>
      subst hcall
      exact .layout stage rfl hitem hcomponent fun hstage => (hready hstage).acts as hholder

/-- A request is made for a holder without a tree if it is made for none. -/
theorem tree?_of_vacant_openRequest {item : Shared Descriptor} {component : Component}
    {factory : Option Factory} {handle : WeakHandle}
    (h : (s.openRequest call).2 = .vacant item component factory handle)
    (hx : s.holders[call.holder]? = some x) : x.state.slot.tree? = none := by
  cases ht : x.state.slot.tree? with
  | none => rfl
  | some t =>
      unfold openRequest at h
      rw [hx] at h
      dsimp only at h
      split at h
      · cases h
      · split at h
        · cases h
        · rw [ht] at h
          cases h

/-- A tree that is built for a holder without one makes it ready. -/
theorem readied_of_built {item : Shared Descriptor} {component : Component}
    {listener : Option MeasureListener} {config : Tree.Config} {tree : TreeRef}
    (hslot : x.state.slot.tree? = none)
    (hholder : s'.holders[call.holder]? = some { x with state := x.state.request call.bounds })
    (hbuilt : s.Built tree → s'.Built tree)
    (hclaim : s'.claimTree call item component (x.downgrade call.holder) listener =
      (s'', .built config tree)) :
    s.Readied x { call, item, component, tree } s'' := by
  have hsupply : (Act.claimTree call item component (x.downgrade call.holder) listener).supplies? s'
      call.holder = some (config, tree) := by
    rw [Act.supplies?, hclaim]
    exact if_pos rfl
  obtain ⟨_, _, _, _, _, y, engine, heq, -, hy, he, -, -, hr, rfl, rfl⟩ :=
    exists_of_supplies? hsupply
  cases heq
  obtain rfl := Option.some.inj (hholder.symm.trans hy)
  obtain ⟨new, hnew, -, -, hconfig, -⟩ := tree?_of_supplies? hsupply
  have hstore : s'' =
      s'.act (.claimTree call item component (x.downgrade call.holder) listener) := by
    rw [act, hclaim]
  subst hstore
  refine ⟨?_, .inr ⟨hslot, fun h => s'.not_built_next he (hbuilt h), new, listener, hnew, hconfig⟩⟩
  rw [s'.holders_act _ hholder, Act.onHolder, if_pos ⟨rfl, rfl, hslot⟩, supplied, he]
  simp [hr, Holder.State.request, Holder.State.takeParked, Holder.State.adopt]

end Store

namespace Session

variable {s t t' : Session} {i n : Nat} {call : Call} {x : Holder} {f g : Frame}
  {as : List Store.Act}

/-! ## Steps of a request -/

/-- The first step of a request that goes on. -/
theorem readies_opening (hw : call.background = false) (hf : s.top? i = some (.openRequest call))
    (hn : s.next? (.carry i) = some t) (hlt : ((s.off i).work i).length < (t.work i).length) :
    ∃ x above g, s.store.holders[call.holder]? = some x ∧
      t.work i = above ++ g :: (s.off i).work i ∧ s.store.Readies call x t.store g := by
  cases happens_of_next? hn with
  | @carry _ g _ hg ht =>
      obtain rfl := Option.some.inj (hg.symm.trans hf)
      rcases ht.goesOn with ⟨calls, fs, hcalls, hfs, hgo⟩ | hpanic
      · obtain rfl := calls_eq_nil rfl hcalls
        cases hfs with
        | nothing => exact absurd hlt (by simp [hgo])
        | opened =>
            rw [hgo, List.nil_append] at hlt ⊢
            have hrecorded {x : Holder} {item : Shared Descriptor} {component : Component}
                (hx : s.store.holders[call.holder]? = some x) (hitem : x.state.item = some item)
                (hc : item.value.component? = some component) : t.store.holders[call.holder]? =
                  some { x with state := x.state.request call.bounds } := by
              rw [holders_of_openRequest hf (by rw [hx, Option.bind_some, hitem]; exact hc) hn,
                Store.getElem?_modifyState, hx]
              simp
            unfold openingFrames at hlt ⊢
            split at hlt
            · next σ r ho =>
                obtain ⟨hcall, hc, hlive, x, hx, hitem⟩ :=
                  live?_of_openRequest (congrArg Prod.snd ho)
                subst hcall
                have hslot : x.state.slot = .live r.tree := by
                  rw [Store.live?_eq _ hx] at hlive
                  cases hs : x.state.slot <;> rw [hs] at hlive <;> cases hlive
                  rfl
                rw [launchFrames_of_waits hw]
                refine ⟨x, [], _, hx, rfl, .layout .enter rfl hitem hc fun _ => ⟨?_, .inl hslot⟩⟩
                rw [hrecorded hx hitem hc, ← hslot]
                rfl
            · next item component handle ho =>
                obtain ⟨hc, x, hx, hitem, -, rfl⟩ := of_vacant_openRequest (congrArg Prod.snd ho)
                exact ⟨x, [], _, hx, rfl, .claim _ hitem hc
                  (Store.tree?_of_vacant_openRequest (congrArg Prod.snd ho) hx)
                  (hrecorded hx hitem hc)⟩
            · next item component factory handle ho =>
                obtain ⟨hc, x, hx, hitem, -, rfl⟩ := of_vacant_openRequest (congrArg Prod.snd ho)
                exact ⟨x, [.factory factory _], _, hx, rfl, .claim _ hitem hc
                  (Store.tree?_of_vacant_openRequest (congrArg Prod.snd ho) hx)
                  (hrecorded hx hitem hc)⟩
            · exact absurd hlt (by simp)
      · exact absurd hpanic.length_le (Nat.not_le.2 hlt)

/-- A frame of a request is followed by another one, if the request goes on. -/
theorem readies_carry (hw : call.background = false) (hf : t.top? i = some f)
    (hready : s.store.Readies call x t.store f) (hstore : t.store = s.store.acts as)
    (hn : t.next? (.carry i) = some t') (ht : Turn (t.off i) i f t')
    (hlt : ((t.off i).work i).length < (t'.work i).length) :
    ∃ above g, t'.work i = above ++ g :: (t.off i).work i ∧ s.store.Readies call x t'.store g := by
  have hnext : t'.store = t.store.acts ((t.off i).frameActs i f) := by
    rw [store_next? hn, momentActs_carry hf]
  rcases ht.goesOn with ⟨calls, fs, hcalls, hfs, hgo⟩ | hpanic
  · cases hready with
    | @claim item component listener hitem hcomponent hslot hholder =>
        obtain rfl := calls_eq_nil rfl hcalls
        cases hfs with
        | nothing => exact absurd hlt (by simp [hgo])
        | claimed =>
            rw [hgo, List.nil_append] at hlt ⊢
            have hone : t'.store = (t.store.claimTree call item component (x.downgrade call.holder)
                listener).1 := by
              rw [hnext]
              show t.store.acts ((t.off i).claimActs call item component _ listener) = _
              rw [claimActs_of_waits hw]
              rfl
            have hoff : (t.off i).store = t.store := rfl
            unfold claimFrames at hlt ⊢
            rw [hoff] at hlt ⊢
            split at hlt
            · next u tree hclaim =>
                rw [Store.claimTree, hholder] at hclaim
                cases he : t.store.engines[call.engine]? <;>
                  simp [he, hslot, Holder.State.request, Holder.downgrade] at hclaim
                split at hclaim <;> simp at hclaim
            · next u config tree hclaim =>
                rw [launchFrames_of_waits hw]
                refine ⟨[], _, rfl, .layout .enter rfl hitem hcomponent fun _ => ?_⟩
                rw [hone, hclaim]
                exact Store.readied_of_built hslot hholder (fun h => by
                  rw [hstore]
                  exact Store.built_acts h as) hclaim
            · exact absurd hlt (by simp)
    | @layout r stage hcall hitem hcomponent hready =>
        cases hfs with
        | nothing hn => cases hn
        | @layout _ stage' _ _ hstep =>
            refine ⟨calls, _, hgo, .layout stage' hcall hitem hcomponent fun hstage => ?_⟩
            cases hstep with
            | fail failure =>
                rw [hnext]
                exact (hready rfl).acts _ (by rw [frameActs]; simp [Store.act])
            | _ => cases hstage
  · exact absurd hpanic.length_le (Nat.not_le.2 hlt)

/-! ## The window of a request -/

/-- Whether a moment is a step of the work on thread `i` that has `n` frames below. -/
def isStep (s : Session) (i n : Nat) : Moment → Bool
  | .carry j => j = i ∧ ((s.off i).work i).length = n
  | _ => false

/-- Whether in a run a holder is changed by nothing but steps of the work on thread `i` that has `n`
frames below. -/
def undisturbed (h i n : Nat) : Session → List Moment → Bool
  | _, [] => true
  | s, m :: ms =>
    match s.next? m with
    | some s' =>
      (s.isStep i n m || s'.store.holders[h]? = s.store.holders[h]?) && undisturbed h i n s' ms
    | none => true

theorem undisturbed_cons {h : Nat} {m : Moment} {ms : List Moment} (hn : s.next? m = some t) :
    s.undisturbed h i n (m :: ms) ↔
      (s.isStep i n m ∨ t.store.holders[h]? = s.store.holders[h]?) ∧ t.undisturbed h i n ms := by
  simp [undisturbed, hn]

variable {m : Moment} {ms ns : List Moment} {below : List Frame} {r : Request} {l : Layout}
  {stage : Stage} {failure : Failure} {u v w : Session}

theorem undisturbed_of_append {h : Nat} (hquiet : s.undisturbed h i n (ms ++ ns)) :
    s.undisturbed h i n ms := by
  induction ms generalizing s with
  | nil => rfl
  | cons m ms ih =>
      cases hm : s.next? m with
      | none => simp [undisturbed, hm]
      | some t =>
          obtain ⟨hone, hquiet⟩ := (undisturbed_cons hm).1 hquiet
          exact (undisturbed_cons hm).2 ⟨hone, ih hquiet⟩

/-- What thread `i` is at in a run that leaves the holder of a request alone: the frames below are
as before, and a frame of the request is above them, with the holder made as ready as it says. -/
structure Readying (s : Session) (i : Nat) (call : Call) (x : Holder) (below : List Frame)
    (as : List Store.Act) (t : Session) : Prop where
  store : t.store = s.store.acts as
  frame : ∃ above g, t.work i = above ++ g :: below ∧ s.store.Readies call x t.store g

theorem Readying.next? (hin : Readying s i call x below as t) (hw : call.background = false)
    (hn : t.next? m = some t') (hlt : below.length < (t'.work i).length)
    (hquiet : t.isStep i below.length m ∨
      t'.store.holders[call.holder]? = t.store.holders[call.holder]?) :
    Readying s i call x below (as ++ t.momentActs m) t' := by
  obtain ⟨above, g, hwork, hready⟩ := hin.frame
  refine ⟨by rw [store_next? hn, hin.store, Store.acts_append], ?_⟩
  rcases kept_or_carried hwork hn hlt with ⟨⟨above', hwork'⟩, hlen⟩ | ⟨rfl, hf, hbelow, ht⟩
  · refine ⟨above', g, hwork', ?_⟩
    have hsame : t'.store.holders[call.holder]? = t.store.holders[call.holder]? := by
      refine hquiet.resolve_left fun hstep => ?_
      cases m with
      | carry j =>
          obtain ⟨rfl, heq⟩ := of_decide_eq_true hstep
          exact hlen rfl heq
      | _ => cases hstep
    rw [store_next? hn] at hsame ⊢
    exact hready.acts _ hsame
  · subst hbelow
    exact readies_carry hw hf hready hin.store hn ht hlt

theorem Readying.follow? (hin : Readying s i call x below as t) (hw : call.background = false)
    (hgo : ∀ ns u, ns <+: ms → t.follow? ns = some u → below.length < (u.work i).length)
    (hquiet : t.undisturbed call.holder i below.length ms) (hrun : t.follow? ms = some t') :
    Readying s i call x below (as ++ t.runActs ms) t' := by
  induction ms generalizing as t with
  | nil =>
      obtain rfl := Option.some.inj hrun
      rwa [runActs_nil, List.append_nil]
  | cons m ms ih =>
      obtain ⟨u, hu, hrun⟩ := follow?_cons_eq_some.1 hrun
      obtain ⟨hone, hquiet⟩ := (undisturbed_cons hu).1 hquiet
      have hinu := hin.next? hw hu (hgo [m] u (by simp) (follow?_singleton hu)) hone
      rw [runActs_cons hu, ← List.append_assoc]
      refine ih hinu (fun ns v hns hv => ?_) hquiet hrun
      exact hgo (m :: ns) v (List.cons_prefix_cons.2 ⟨rfl, hns⟩)
        (by rw [follow?_cons, hu]; exact hv)

/-- When the layout of a request did not begin yet, or has failed, the holder is ready for it. -/
theorem Window.readied (hw : Window s i call ms w)
    (hf : w.top? i = some (.layout l (.commit r) stage)) (hstage : stage.unbegun)
    (hquiet : s.undisturbed call.holder i ((s.off i).work i).length (.carry i :: ms)) :
    l = r.layout ∧ r.call = call ∧ r.item.value.component? = some r.component ∧
      (w.off i).work i = (s.off i).work i ∧
      ∃ x, s.store.holders[call.holder]? = some x ∧ x.state.item = some r.item ∧
        s.store.Readied x r w.store := by
  obtain ⟨u, hu, hrun⟩ := follow?_cons_eq_some.1 hw.run
  have hwork := work_of_top? hw.opened rfl
  have hlonger : ∀ ns v, ns <+: ms → u.follow? ns = some v →
      ((s.off i).work i).length < (v.work i).length := fun ns v hns hv => by
    have hlen := hw.goesOn ns v hns (by rw [follow?_cons, hu]; exact hv)
    rwa [hwork] at hlen
  obtain ⟨x, above, g, hx, hopened, hready⟩ :=
    readies_opening hw.waits hw.opened hu (hlonger [] u List.nil_prefix rfl)
  have hin : Readying s i call x ((s.off i).work i) (s.acts i) u :=
    ⟨store_next? hu, above, g, hopened, hready⟩
  obtain ⟨above', g', hframe, hend⟩ :=
    (hin.follow? hw.waits hlonger ((undisturbed_cons hu).1 hquiet).2 hrun).frame
  have htop := work_of_top? hf rfl
  obtain rfl : above' = [] := by
    have hlen := hw.ends
    rw [hframe, hwork, List.length_append, List.length_cons, List.length_cons] at hlen
    exact List.length_eq_zero_iff.1 (by omega)
  obtain ⟨rfl, hbelow⟩ := List.cons.inj (hframe.symm.trans htop)
  cases hend with
  | layout stage hcall hitem hcomponent hready =>
      exact ⟨rfl, hcall, hcomponent, hbelow.symm, x, hx, hitem, hready hstage⟩

/-! ## Failures -/

/-- A request returns the outcome of its layout. -/
theorem reply?_deliver {outcome : Except Failure Size}
    (hf : w.top? i = some (.layout l (.commit r) (.deliver outcome)))
    (hn : w.next? (.carry i) = some v) : v.reply? i = some (.ofOutcome outcome) := by
  obtain rfl := eq_of_next?_carry hf hn
  have hi := lt_off_of_top? hf
  rw [reply?_dismissSince]
  cases outcome with
  | ok size => exact reply?_answer hi _
  | error failure => exact reply?_answer hi _

/-- What becomes of a request whose layout fails. It began in the session `s`, is to deliver the
failure in `w`, and is over in `v`. -/
structure Failed (s : Session) (i : Nat) (call : Call) (ms : List Moment) (w : Session)
    (r : Request) (failure : Failure) (v : Session) : Prop where
  reply : v.reply? i = some (.trouble (.failure failure))
  /-- The layout commits nothing to a tree, is not counted, and no listener is told of it. -/
  turnedAway : ∃ ks ns u, .carry i :: ms = ks ++ ns ∧ s.follow? ks = some u ∧
    Course u i r.layout (.commit r) ((s.off i).work i) ns w (.deliver (.error failure)) ∧
    TurnedAway i r.layout (u.layoutSteps i ((s.off i).work i).length ns ++
      [(w, .deliver (.error failure))]) failure
  /-- The holder has the constraints recorded, and a tree if it had none. The rest is as before. -/
  readied : ∃ x, s.store.holders[call.holder]? = some x ∧ s.store.Readied x r v.store

theorem Window.failed (hw : Window s i call ms w)
    (hf : w.top? i = some (.layout l (.commit r) (.deliver (.error failure))))
    (hquiet : s.undisturbed call.holder i ((s.off i).work i).length (.carry i :: ms))
    (hn : w.next? (.carry i) = some v) : Failed s i call ms w r failure v := by
  obtain ⟨rfl, hcall, -, hbelow, x, hx, -, hready⟩ := hw.readied hf rfl hquiet
  refine ⟨reply?_deliver hf hn, ?_, x, hx, ?_⟩
  · have hwork := work_of_top? hf rfl
    rw [hbelow] at hwork
    have hnone (above : List Frame) (stage : Stage) :
        s.work i ≠ above ++ .layout r.layout (.commit r) stage :: (s.off i).work i := fun h => by
      rw [work_of_top? hw.opened rfl] at h
      cases above with
      | nil => cases (List.cons.inj h).1
      | cons f above =>
          have hlen := congrArg List.length (List.cons.inj h).2
          simp at hlen
          omega
    obtain ⟨ks, ns, u, hms, hks, hc⟩ := exists_course hw.run hnone hwork
    exact ⟨ks, ns, u, hms, hks, hc, turnedAway_of_course hc hf⟩
  · rw [store_layout hf hn]
    exact hready

end Session

end Recycler

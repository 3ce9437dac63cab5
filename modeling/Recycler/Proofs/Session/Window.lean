import Recycler.Proofs.Session.Rest
import Recycler.Proofs.Store.History

/-!
# The window of a request

A request that waits for its layout is carried by one frame of its thread after the other, from its
first step to its last. Whatever happens in between, on its own thread in callbacks on top of it or
on others, its last step takes the layout over if the holder did not lose the tree in the meantime
and was given no other descriptor last.
-/

namespace Recycler

/-- A frame of a request that began on the holder `x`, after the acts `as` on the store `s`. -/
inductive Store.OfCall (s : Store) (as : List Store.Act) (call : Call) (x : Holder) : Frame → Prop
  | claim {item : Shared Descriptor} (component : Component) (listener : Option MeasureListener)
      (hitem : x.state.item = some item) :
      OfCall s as call x (.claimTree call item component (x.downgrade call.holder) listener)
  | layout {r : Request} (l : Layout) (stage : Stage) (bs cs : List Store.Act)
      (hcall : r.call = call) (hitem : x.state.item = some r.item) (has : as = bs ++ cs)
      (hresets : ∀ a ∈ bs, a.resets call.holder = false)
      (hlive : (s.acts bs).live? call.holder = some r.tree) :
      OfCall s as call x (.layout l (.commit r) stage)

namespace Store

variable {s : Store} {f : Frame} {call : Call} {x : Holder} {as : List Store.Act}

theorem OfCall.append (h : s.OfCall as call x f) (bs : List Store.Act) :
    s.OfCall (as ++ bs) call x f := by
  cases h with
  | claim component listener hitem => exact .claim component listener hitem
  | layout l stage as cs hcall hitem has hresets hlive =>
      refine .layout l stage as (cs ++ bs) hcall hitem ?_ hresets hlive
      rw [has, List.append_assoc]

theorem OfCall.holder? (h : s.OfCall as call x f) : f.holder? = some call.holder := by
  cases h with
  | claim => rfl
  | layout l stage as cs hcall => exact congrArg (fun c : Call => some c.holder) hcall

end Store

namespace Session

variable {s s' t t' : Session} {i : Nat} {f g : Frame} {call : Call} {x : Holder} {m : Moment}
  {ms : List Moment} {as bs : List Store.Act} {below : List Frame}

/-- A run in which thread `i` carries a request, which waits for its layout, from its first step up
to its last. Nested requests are above the request on the stack. -/
structure Window (s : Session) (i : Nat) (call : Call) (ms : List Moment) (s' : Session) :
    Prop where
  waits : call.background = false
  opened : s.top? i = some (.openRequest call)
  run : s.follow? (.carry i :: ms) = some s'
  goesOn : ∀ ns t, ns <+: ms → s.follow? (.carry i :: ns) = some t →
    (s.work i).length ≤ (t.work i).length
  ends : (s'.work i).length = (s.work i).length


/-! ## Holders in use -/

/-- In an unbroken run a holder that some work is for is in no pool. -/
theorem Orderly.not_idles_of_work (ho : s.Orderly) {j h p : Nat} (hf : f ∈ s.work j)
    (hh : f.holder? = some h) : ¬ s.store.Idles p h :=
  fun hi => (ho.rested.idle p h hi).workless j f hf hh

/-! ## The frames of a request -/

/-- A handle from before a release is stale. -/
theorem stale_of_resets {s : Store} {h : Nat} (hx : s.holders[h]? = some x) {a : Store.Act}
    (ha : a ∈ as) (hr : a.resets h) : (s.acts as).Stale (x.downgrade h) := by
  obtain ⟨bs, cs, rfl⟩ := List.append_of_mem ha
  rw [Store.acts_append, Store.acts_cons]
  have hissued : (s.acts bs).Issued (x.downgrade h) :=
    Store.acts_induction (P := (·.Issued (x.downgrade h))) (fun s a hw => hw.act a)
      (Store.issued_downgrade hx) bs
  exact Store.acts_induction (P := (·.Stale (x.downgrade h))) (fun s a hw => hw.act a)
    (hissued.stale_of_resets hr) cs

theorem launchFrames_of_waits {t : Store} {r : Request} (h : r.call.background = false) :
    launchFrames t r = [.layout r.layout (.commit r) .enter] := by
  rw [launchFrames, if_neg (by simp [h])]

theorem launchActs_of_waits {t : Store} {r : Request} (h : r.call.background = false) :
    launchActs t r = [] := by
  rw [launchActs, if_neg (by simp [h])]

/-- A request that goes on after its first step does so with a frame of its own. -/
theorem ofCall_opening (hw : call.background = false) (hne : openingFrames s.store call ≠ []) :
    ∃ x, s.store.holders[call.holder]? = some x ∧ ∃ above g,
      openingFrames s.store call = above ++ [g] ∧ s.store.OfCall (s.openingActs call) call x g := by
  unfold openingFrames at hne ⊢
  split at hne
  · next t r ho =>
      obtain ⟨hcall, hc, hlive, x, hx, hitem⟩ := live?_of_openRequest (congrArg Prod.snd ho)
      rw [launchFrames_of_waits (by rw [hcall, hw])]
      exact ⟨x, hx, [], _, rfl, .layout _ _ [] _ hcall hitem rfl (fun a ha => nomatch ha) hlive⟩
  · next item component handle ho =>
      obtain ⟨hc, x, hx, hitem, -, rfl⟩ := of_vacant_openRequest (congrArg Prod.snd ho)
      exact ⟨x, hx, [], _, rfl, .claim _ _ hitem⟩
  · next item component factory handle ho =>
      obtain ⟨hc, x, hx, hitem, -, rfl⟩ := of_vacant_openRequest (congrArg Prod.snd ho)
      exact ⟨x, hx, [.factory factory _], _, rfl, .claim _ _ hitem⟩
  · exact absurd rfl hne

theorem claimActs_of_waits (hw : call.background = false) (item : Shared Descriptor)
    (component : Component) (handle : WeakHandle) (listener : Option MeasureListener) :
    s.claimActs call item component handle listener =
      [.claimTree call item component handle listener] := by
  unfold claimActs
  split
  · rw [launchActs_of_waits hw]
  · rw [launchActs_of_waits hw]
  · rfl

/-- A request that goes on after its second step does so with a layout of a tree that the holder
has then, and the holder was not released before. -/
theorem ofCall_claim {s₀ : Store} (hw : call.background = false)
    (hx : s₀.holders[call.holder]? = some x) {item : Shared Descriptor} {component : Component}
    {listener : Option MeasureListener} (hitem : x.state.item = some item)
    (hstore : s.store = s₀.acts as)
    (hne : claimFrames s.store call item component (x.downgrade call.holder) listener ≠ []) :
    ∃ g, claimFrames s.store call item component (x.downgrade call.holder) listener = [g] ∧
      s₀.OfCall (as ++ s.claimActs call item component (x.downgrade call.holder) listener)
        call x g := by
  have hresets : ∀ a ∈ as, a.resets call.holder = false := by
    intro a ha
    rw [← Bool.not_eq_true]
    intro hr
    have hstale := stale_of_resets hx ha hr
    rw [← hstore] at hstale
    rw [claimFrames, hstale.claimTree rfl] at hne
    exact hne rfl
  have hfound {u : Store} {tree : TreeRef}
      (h : s.store.claimTree call item component (x.downgrade call.holder) listener =
          (u, .found tree) ∨ ∃ config, s.store.claimTree call item component
            (x.downgrade call.holder) listener = (u, .built config tree)) :
      s₀.OfCall (as ++ [.claimTree call item component (x.downgrade call.holder) listener]) call x
        (.layout (Request.layout { call, item, component, tree })
          (.commit { call, item, component, tree }) .enter) := by
    have hu : (s.store.claimTree call item component (x.downgrade call.holder) listener).1 = u := by
      rcases h with h | ⟨config, h⟩ <;> rw [h]
    refine .layout _ _ _ [] rfl hitem (List.append_nil _).symm (fun a ha => ?_) ?_
    · rcases List.mem_append.1 ha with ha | ha
      · exact hresets a ha
      · obtain rfl := List.mem_singleton.1 ha
        rfl
    · rw [Store.acts_append, ← hstore, Store.acts_cons, Store.acts_nil, Store.act, hu]
      exact (live?_of_claimTree h).1
  rw [claimActs_of_waits hw]
  unfold claimFrames at hne ⊢
  split at hne
  · next u tree hclaim =>
      rw [launchFrames_of_waits hw]
      exact ⟨_, rfl, hfound (.inl hclaim)⟩
  · next u config tree hclaim =>
      rw [launchFrames_of_waits hw]
      exact ⟨_, rfl, hfound (.inr ⟨config, hclaim⟩)⟩
  · exact absurd rfl hne

/-! ## Steps within the window -/

/-- What thread `i` is at in the window of a request: the frames below are as before, a frame of
the request is above them, and others may be on top of it. -/
structure Within (s : Session) (i : Nat) (call : Call) (x : Holder) (below : List Frame)
    (as : List Store.Act) (t : Session) : Prop where
  reachable : t.Reachable
  store : t.store = s.store.acts as
  frame : ∃ above g, t.work i = above ++ g :: below ∧ s.store.OfCall as call x g

theorem calls_eq_nil {calls : List Frame} (hf : f.callsBack = false)
    (hcalls : ∀ c ∈ calls, f.callsBack ∧ ∃ steps, c = .script steps) : calls = [] := by
  refine List.eq_nil_iff_forall_not_mem.2 fun c hc => ?_
  rw [hf] at hcalls
  exact Bool.false_ne_true (hcalls c hc).1

/-- What is left of a stack, the frames below and more, has the frame above them still. -/
theorem eq_append_of_suffix {fs above : List Frame} (h : fs <:+ above ++ g :: below)
    (hlt : below.length < fs.length) : ∃ above', fs = above' ++ g :: below := by
  induction above with
  | nil =>
      rcases List.suffix_cons_iff.1 h with h | h
      · exact ⟨[], h⟩
      · exact absurd h.length_le (Nat.not_le.2 hlt)
  | cons a above ih =>
      rcases List.suffix_cons_iff.1 h with h | h
      · exact ⟨a :: above, h⟩
      · exact ih h

/-- Work on top of a request leaves the request where it is. -/
theorem frame_of_above {above : List Frame} (hwork : s.work i = above ++ g :: below)
    (ht : Turn s i f s') (hlt : below.length < (s'.work i).length) :
    ∃ above', s'.work i = above' ++ g :: below := by
  rcases ht.goesOn with ⟨calls, fs, -, -, h⟩ | h
  · exact ⟨calls ++ (fs ++ above), by rw [h, hwork]; simp⟩
  · rw [hwork] at h
    exact eq_append_of_suffix h hlt

/-- The frame of a request is followed by another one, if the request goes on. -/
theorem frame_of_ofCall {s₀ : Store} (hw : call.background = false)
    (hx : s₀.holders[call.holder]? = some x) (hf : s₀.OfCall as call x f)
    (hstore : s.store = s₀.acts as) (ht : Turn s i f s')
    (hlt : (s.work i).length < (s'.work i).length) :
    ∃ above g, s'.work i = above ++ g :: s.work i ∧
      s₀.OfCall (as ++ s.frameActs i f) call x g := by
  rcases ht.goesOn with ⟨calls, fs, hcalls, hfs, hwork⟩ | hpanic
  · cases hf with
    | claim component listener hitem =>
        obtain rfl := calls_eq_nil rfl hcalls
        cases hfs with
        | nothing => exact absurd hlt (by simp [hwork])
        | claimed =>
            obtain ⟨g, hg, hcall⟩ := ofCall_claim hw hx hitem hstore (by
              intro hnil
              rw [hwork, hnil] at hlt
              exact absurd hlt (by simp))
            exact ⟨[], g, by rw [hwork, hg]; rfl, hcall⟩
    | @layout r l stage bs cs hcall hitem has hresets hlive =>
        cases hfs with
        | nothing hn => cases hn
        | @layout _ stage' _ _ hnext =>
            refine ⟨calls, .layout l (.commit r) stage', hwork, Store.OfCall.append ?_ _⟩
            exact .layout l stage' bs cs hcall hitem has hresets hlive
  · exact absurd hpanic.length_le (Nat.not_le.2 hlt)

theorem suffix_work_push (s : Session) (i : Nat) (fs : List Frame) (j : Nat) :
    s.work j <:+ (s.push i fs).work j := by
  rw [work_push]
  split
  · exact List.suffix_append _ _
  · exact List.suffix_refl _

/-- A step leaves a frame that it finds on a stack there, with the frames below it and whatever the
step puts on top, or it carries the frame on. -/
theorem kept_or_carried {above : List Frame} (hwork : s.work i = above ++ g :: below)
    (h : s.next? m = some s') (hlt : below.length < (s'.work i).length) :
    ((∃ above', s'.work i = above' ++ g :: below) ∧
        (m = .carry i → ((s.off i).work i).length ≠ below.length)) ∨
      (m = .carry i ∧ s.top? i = some g ∧ (s.off i).work i = below ∧ Turn (s.off i) i g s') := by
  cases happens_of_next? h with
  | @give j c hj =>
      obtain ⟨fs, hfs⟩ := suffix_work_push { s with events := [], logs := [] } j
        [.command c, .conclude] i
      have hsame : ({ s with events := [], logs := [] } : Session).work i = s.work i := rfl
      exact .inl ⟨⟨fs ++ above, by rw [← hfs, hsame, hwork, List.append_assoc]⟩, nofun⟩
  | look k => exact .inl ⟨⟨above, ((s.like_view? k).work i).trans hwork⟩, nofun⟩
  | @carry j f _ hf ht =>
      by_cases hj : i = j
      · subst hj
        -- the frame that is carried on is a worker's, the frame itself, or one above it
        have hsplit := work_eq_of_top? hf
        rw [hwork] at hsplit
        have hbelow {above' : List Frame} (hrest : above' ++ g :: below = (s.off i).work i) :
            (∃ above', s'.work i = above' ++ g :: below) ∧
              ((.carry i : Moment) = .carry i → ((s.off i).work i).length ≠ below.length) := by
          refine ⟨frame_of_above (s := s.off i) hrest.symm ht hlt, fun _ => ?_⟩
          rw [← hrest, List.length_append, List.length_cons]
          omega
        cases hserve : f.isServe with
        | true =>
            simp only [List.filter_cons, hserve] at hsplit
            exact .inl (hbelow hsplit)
        | false =>
            simp only [List.filter_cons, hserve] at hsplit
            cases above with
            | nil =>
                obtain ⟨rfl, hrest⟩ := List.cons.inj hsplit
                exact .inr ⟨rfl, hf, hrest.symm, ht⟩
            | cons a above => exact .inl (hbelow (List.cons.inj hsplit).2)
      · have hoff : (s.off j).work i = s.work i := s.work_off hj
        rcases ht.others i hj with hsame | ⟨hnil, -⟩
        · refine .inl ⟨⟨above, hsame.trans (hoff.trans hwork)⟩, fun heq => ?_⟩
          exact absurd heq (by simp [Ne.symm hj])
        · rw [hoff, hwork] at hnil
          simp at hnil

theorem within_opening (hr : s.Reachable) (hw : call.background = false)
    (hf : s.top? i = some (.openRequest call)) (h : s.next? (.carry i) = some t)
    (hlt : (s.work i).length ≤ (t.work i).length) :
    ∃ x, s.store.holders[call.holder]? = some x ∧
      Within s i call x ((s.off i).work i) (s.acts i) t := by
  have hwork := work_of_top? hf rfl
  have hacts : s.acts i = (s.off i).openingActs call := by rw [acts, hf]; rfl
  have hstore : t.store = s.store.acts (s.acts i) := store_next? h
  have hone := follow?_singleton h
  have hreach : t.Reachable := hr.follow? hone
  cases happens_of_next? h with
  | @carry _ g _ hg ht =>
      obtain rfl := Option.some.inj (hg.symm.trans hf)
      rw [hwork, List.length_cons] at hlt
      rcases ht.goesOn with ⟨calls, fs, hcalls, hfs, hgo⟩ | hpanic
      · obtain rfl := calls_eq_nil rfl hcalls
        cases hfs with
        | nothing => exact absurd hlt (by simp [hgo])
        | opened =>
            obtain ⟨x, hx, above, g, hopening, hcall⟩ := ofCall_opening (s := s.off i) hw (by
              intro hnil
              rw [hgo, hnil] at hlt
              exact absurd hlt (by simp))
            rw [← hacts] at hcall
            refine ⟨x, hx, hreach, hstore, above, g, ?_, hcall⟩
            rw [hgo, hopening]
            simp
      · exact absurd hpanic.length_le (Nat.not_le.2 hlt)

theorem Within.next? {s t t' : Session} (hin : Within s i call x below as t)
    (hw : call.background = false) (hx : s.store.holders[call.holder]? = some x)
    (h : t.next? m = some t') (hlt : below.length < (t'.work i).length) :
    Within s i call x below (as ++ t.momentActs m) t' := by
  obtain ⟨above, g, hwork, hcall⟩ := hin.frame
  have hone := follow?_singleton h
  refine ⟨hin.reachable.follow? hone, ?_, ?_⟩
  · rw [store_next? h, hin.store, Store.acts_append]
  · rcases kept_or_carried hwork h hlt with ⟨⟨above', hwork'⟩, -⟩ | ⟨rfl, hf, hbelow, ht⟩
    · exact ⟨above', g, hwork', hcall.append _⟩
    · subst hbelow
      rw [momentActs_carry hf]
      exact frame_of_ofCall (s := t.off i) hw hx hcall hin.store ht hlt

theorem Within.follow? (hin : Within s i call x below as t) (hw : call.background = false)
    (hx : s.store.holders[call.holder]? = some x)
    (hgo : ∀ ns u, ns <+: ms → t.follow? ns = some u → below.length < (u.work i).length)
    (h : t.follow? ms = some t') : Within s i call x below (as ++ t.runActs ms) t' := by
  induction ms generalizing as t with
  | nil =>
      obtain rfl := Option.some.inj h
      rwa [runActs_nil, List.append_nil]
  | cons m ms ih =>
      obtain ⟨u, hu, h⟩ := follow?_cons_eq_some.1 h
      have hone := follow?_singleton hu
      have hinu := hin.next? hw hx hu (hgo [m] u (by simp) hone)
      rw [runActs_cons hu, ← List.append_assoc]
      refine ih hinu (fun ns v hns hv => ?_) h
      exact hgo (m :: ns) v (List.cons_prefix_cons.2 ⟨rfl, hns⟩)
        (by rw [follow?_cons, hu]; exact hv)

/-! ## The last step -/

/-- All through the window of a request the holder is in no pool, if the run is unbroken. -/
theorem Window.unoffered (hw : Window s i call ms s') (ho : s.Orderly)
    (hu : s.unbroken (.carry i :: ms)) :
    s.store.Unoffered call.holder (s.runActs (.carry i :: ms)) := by
  have hwork := work_of_top? hw.opened rfl
  refine unoffered_runActs hw.run fun ns v hns hv p => ?_
  have hov := ho.of_follow?_initial hu hns hv
  cases ns with
  | nil =>
      obtain rfl := Option.some.inj hv
      exact ho.not_idles_of_work (mem_work_of_top? hw.opened rfl) rfl
  | cons m ns =>
      obtain ⟨rfl, hpre⟩ := List.cons_prefix_cons.1 hns
      obtain ⟨u, hu, hrun⟩ := follow?_cons_eq_some.1 hv
      obtain ⟨x, hx, hin⟩ := within_opening ho.reachable hw.waits hw.opened hu
        (hw.goesOn [] u List.nil_prefix (follow?_singleton hu))
      have hlater := hin.follow? hw.waits hx (fun ks w hks hw' => by
        have hlen := hw.goesOn ks w (hks.trans hpre) (follow?_cons_eq_some.2 ⟨u, hu, hw'⟩)
        rwa [hwork] at hlen) hrun
      obtain ⟨above, g, hframe, hcall⟩ := hlater.frame
      refine hov.not_idles_of_work (j := i) (f := g) ?_ hcall.holder?
      rw [hframe]
      exact List.mem_append_cons_self

/-- The last step of a request sets the height and declares the layout valid, and does nothing
else, if the window upholds the request. Otherwise it does nothing at all. -/
theorem Window.commit_iff (hw : Window s i call ms s') (ho : s.Orderly)
    (hu : s.unbroken (.carry i :: ms)) {l : Layout} {r : Request} {size : Size}
    (hf : s'.top? i = some (.layout l (.commit r) (.deliver (.ok size))))
    (h : s'.advance? i = some t) :
    r.call = call ∧ (s.store.holders[call.holder]?.bind (·.state.item)) = some r.item ∧
      (∃ as bs, s.runActs (.carry i :: ms) = as ++ bs ∧
        (s.store.acts as).live? call.holder = some r.tree) ∧
      (s.store.Upholds r (s.runActs (.carry i :: ms)) →
        t.store = s'.store.modifyState call.holder
          ({ · with valid := true, height := some size.height })) ∧
      (¬ s.store.Upholds r (s.runActs (.carry i :: ms)) → t.store = s'.store) := by
  have hunoffered := hw.unoffered ho hu
  obtain ⟨u, hu, hrun⟩ := follow?_cons_eq_some.1 hw.run
  have hwork := work_of_top? hw.opened rfl
  obtain ⟨x, hx, hin⟩ := within_opening ho.reachable hw.waits hw.opened hu
    (hw.goesOn [] u List.nil_prefix (follow?_singleton hu))
  have hend := hin.follow? hw.waits hx (fun ns v hns hv => by
    have hlen := hw.goesOn ns v hns (follow?_cons_eq_some.2 ⟨u, hu, hv⟩)
    rwa [hwork] at hlen) hrun
  rw [runActs_cons hu, momentActs] at hunoffered ⊢
  obtain ⟨above, g, hframe, hcall⟩ := hend.frame
  have htop := work_of_top? hf rfl
  obtain rfl : above = [] := by
    have hlen := hw.ends
    rw [hframe, hwork, List.length_append, List.length_cons, List.length_cons] at hlen
    exact List.length_eq_zero_iff.1 (by omega)
  obtain ⟨rfl, -⟩ := List.cons.inj (hframe.symm.trans htop)
  have hstore : t.store = s'.store.commitLayout r size := by
    rw [store_advance? h, acts, hf]
    rfl
  generalize s.acts i ++ u.runActs ms = history at hend hcall hunoffered ⊢
  cases hcall with
  | layout _ _ as bs hcall hitem has hresets hlive =>
      subst hcall has
      have hcurrent :=
        Store.isCurrent_acts_iff ho.reachable.sound.owned hx hitem hunoffered hresets hlive
      rw [← hend.store] at hcurrent
      refine ⟨rfl, by rw [hx]; exact hitem, ⟨as, bs, rfl, hlive⟩, fun hup => ?_, fun hup => ?_⟩
      · rw [hstore, Store.commitLayout, if_pos (hcurrent.2 hup)]
        rfl
      · rw [hstore, Store.commitLayout, if_neg fun hc => hup (hcurrent.1 hc)]

/-! ### There and back

While a layout is made on another thread, the main thread gives the holder another descriptor and
then the one it had.
-/

namespace ThereAndBack

def upToRequest : List Moment :=
  told (.component "c" "c" .byName) ++ told (.item "d" (.component "c") []) ++
    told (.item "other" (.component "c") []) ++ told (.engine "e" .standard {}) ++
    told (.acquire "d" [] none "shared" (some "h")) ++
    told (.spawn (.layout default "e" "" "h" false) (some "j")) ++ [.carry 1]

def window : List Moment :=
  List.replicate 2 (.carry 1) ++ told (.onHolder "h" (.describe "other")) ++
    told (.onHolder "h" (.describe "d")) ++ List.replicate 4 (.carry 1)

def atRequest : Session :=
  ((ofProgram { steps := [], scripts := [] }).follow? upToRequest).get (by decide)

def beforeCommit : Session := (atRequest.follow? (.carry 1 :: window)).get (by decide)

def afterCommit : Session := (beforeCommit.advance? 1).get (by decide)

theorem window_atRequest :
    atRequest.Window 1 ⟨0, 0, "", default, false⟩ window beforeCommit where
  waits := rfl
  opened := rfl
  run := (Option.some_get _).symm
  goesOn ns t hns ht := by
    have hall : ∀ k ≤ window.length, (atRequest.follow? (.carry 1 :: window.take k)).all fun t =>
        (atRequest.work 1).length ≤ (t.work 1).length := by decide
    have hlen := hall ns.length hns.length_le
    rw [← List.prefix_iff_eq_take.1 hns, ht] at hlen
    exact of_decide_eq_true hlen
  ends := by decide

theorem commit_takes_over :
    afterCommit.store = beforeCommit.store.modifyState 0
      ({ · with valid := true, height := some 48 }) :=
  (window_atRequest.commit_iff ⟨_, upToRequest, by decide, (Option.some_get _).symm⟩ (by decide)
    rfl (Option.some_get _).symm).2.2.2.1 (by decide)

end ThereAndBack

end Session

end Recycler

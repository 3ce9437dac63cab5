import Recycler.Proofs.Session.Course
import Recycler.Proofs.Session.Valid
import Recycler.Proofs.Store.Height

/-!
# Layout calls that overlap

A call that waits for its layout commits it in two places, to the tree when it was measured and to
the holder at the end. The listeners of the tree are told in between, and other threads may go on.
Calls on one holder may therefore commit to the two places in different orders, and a call that is
cut short by a panic in a listener commits to the tree only.

`Reachable.height_of_calls` says how the height of a holder and the layout of its tree are related
after any number of such calls, nested in one another or on several threads.
-/

namespace Recycler

/-- The size that a layout was settled with. -/
def Stage.settled? : Stage → Option Size
  | .notifyMeasured size _ | .notifyReady size _ | .deliver (.ok size) => some size
  | _ => none

/-- Whether a layout is made for a request on a holder that waits for it. -/
def Sequel.isFor (h : Nat) : Sequel → Bool
  | .commit r => r.call.holder = h
  | _ => false

/-- Whether an act is anything but keeping an item in a holder and laying it out in calls that wait:
a release, another descriptor, a request in the background, or a height from outside. -/
def Store.Act.departs (h : Nat) (item : Shared Descriptor) : Store.Act → Bool
  | .reset k => k = h
  | .change k (.describe other) => k = h && !other.same item
  | .change k (.setHeight _) => k = h
  | .writeHeight w _ => w.holder = h
  | .openRequest call => call.holder = h && call.background
  | _ => false

theorem Stage.Next.settled? {stage stage' : Stage} (h : stage.Next stage') {size : Size} :
    stage'.settled? = some size ↔ stage = .settle size ∨ stage.settled? = some size := by
  cases h <;> simp [Stage.settled?, eq_comm]

namespace Session

variable {o s s' t : Session} {ms : List Moment} {m : Moment} {i j h : Nat} {f g : Frame}
  {l : Layout} {sequel : Sequel} {stage : Stage} {size : Size} {item : Shared Descriptor}
  {r : Request} {x y : Holder} {as bs cs : List Store.Act}

/-! ## Layouts between their steps -/

/-- A layout goes on whenever it is carried on before its last step. -/
theorem layout_goesOn (hf : s.top? i = some (.layout l sequel stage))
    (hd : ∀ outcome, stage ≠ .deliver outcome) (hn : s.next? (.carry i) = some s') :
    ∃ stage', stage.Next stage' ∧ .layout l sequel stage' ∈ s'.work i := by
  rcases work_layout hf hn with ⟨calls, stage', hafter, hwork⟩ | ⟨hnone, -⟩
  · exact ⟨stage', Stage.next_of_after? hafter, by simp [hwork]⟩
  · cases stage with
    | deliver outcome => exact absurd rfl (hd outcome)
    | _ => cases hnone

/-- A layout was settled in a call on the holder that goes on. -/
def InCall (s : Session) (h : Nat) (l : Layout) (size : Size) : Prop :=
  ∃ j r stage, r.call.holder = h ∧ stage.settled? = some size ∧
    .layout l (.commit r) stage ∈ s.work j

/-- A layout was settled in a call on the holder that is gone before its last step, by a panic in
something on top of it. -/
def CutShort (s : Session) (ms : List Moment) (h : Nat) (l : Layout) (size : Size) : Prop :=
  ∃ ns i ks t t' r stage, ms = ns ++ .carry i :: ks ∧ s.follow? ns = some t ∧
    t.next? (.carry i) = some t' ∧ r.call.holder = h ∧ stage.settled? = some size ∧
    .layout l (.commit r) stage ∈ (t.off i).work i ∧ .layout l (.commit r) stage ∉ t'.work i

theorem CutShort.concat (hc : s.CutShort ms h l size) (m : Moment) :
    s.CutShort (ms ++ [m]) h l size := by
  obtain ⟨ns, i, ks, t, t', r, stage, rfl, hrest⟩ := hc
  exact ⟨ns, i, ks ++ [m], t, t', r, stage, by rw [List.append_assoc, List.cons_append], hrest⟩

/-- A call that settled its layout goes on until its last step, unless it is cut short. -/
theorem InCall.next? (hc : s.InCall h l size) (hrun : o.follow? ms = some s)
    (hn : s.next? m = some s') :
    s'.InCall h l size ∨ o.CutShort (ms ++ [m]) h l size ∨ ∃ i r, m = .carry i ∧
      r.call.holder = h ∧ s.top? i = some (.layout l (.commit r) (.deliver (.ok size))) := by
  obtain ⟨j, r, stage, hr, hsettled, hg⟩ := hc
  have hlater {j : Nat} (hg : .layout l (.commit r) stage ∈ s'.work j) : s'.InCall h l size :=
    ⟨j, r, stage, hr, hsettled, hg⟩
  cases happens_of_next? hn with
  | @give k c hk =>
      refine .inl (hlater (j := j) ?_)
      exact (suffix_work_push { s with events := [], logs := [] } k _ j).subset hg
  | look k => exact .inl (hlater (j := j) (((s.like_view? k).work j).symm ▸ hg))
  | @carry i f _ hf ht =>
      by_cases hj : j = i
      · subst hj
        rw [work_eq_of_top? hf] at hg
        rcases List.mem_append.1 hg with hg | hg
        · obtain rfl := List.mem_singleton.1 (List.mem_filter.1 hg).1
          by_cases hd : stage = .deliver (.ok size)
          · exact .inr (.inr ⟨j, r, rfl, hr, hd ▸ hf⟩)
          · obtain ⟨stage', hnext, hg'⟩ := layout_goesOn hf (by
              rintro (failure | size') rfl
              · cases hsettled
              · obtain rfl := Option.some.inj hsettled
                exact hd rfl) hn
            exact .inl ⟨j, r, stage', hr, hnext.settled?.2 (.inr hsettled), hg'⟩
        · by_cases hg' : .layout l (.commit r) stage ∈ s'.work j
          · exact .inl (hlater hg')
          · exact .inr (.inl ⟨ms, j, [], s, s', r, stage, rfl, hrun, hn, hr, hsettled, hg, hg'⟩)
      · refine .inl (hlater (j := j) ?_)
        rw [← work_off s hj] at hg
        rcases ht.others j hj with hsame | ⟨hnil, -⟩
        · exact hsame ▸ hg
        · rw [hnil] at hg
          cases hg

/-! ## Runs of calls -/

/-- Whether a moment settles a layout on the tree of a holder that no request on the holder waits
for. -/
def strays (s : Session) (h : Nat) : Moment → Bool
  | .carry i =>
    match s.top? i with
    | some (.layout l sequel (.settle _)) => s.store.live? h = some l.tree && !sequel.isFor h
    | _ => false
  | _ => false

/-- Whether a holder keeps an item in a run and is laid out only in calls that wait, with its height
set by nobody else. -/
def onlyCalls (h : Nat) (item : Shared Descriptor) : Session → List Moment → Bool
  | _, [] => true
  | s, m :: ms =>
    (s.momentActs m).all (!·.departs h item) && !s.strays h m &&
      match s.next? m with
      | some s' => onlyCalls h item s' ms
      | none => true

theorem onlyCalls_cons (hn : s.next? m = some s') : s.onlyCalls h item (m :: ms) ↔
    (∀ a ∈ s.momentActs m, a.departs h item = false) ∧ s.strays h m = false ∧
      s'.onlyCalls h item ms := by
  simp [onlyCalls, hn, and_assoc]

/-- What the run from `o` says of a frame that is for a holder. -/
def Serves (o : Session) (ms : List Moment) (item : Shared Descriptor) : Frame → Prop
  | .openRequest _ => True
  | .claimTree call item' .. => call.background = false ∧ item' = item
  | .layout l (.commit r) stage =>
    r.item = item ∧ ∀ size, stage.settled? = some size → o.SettlesTo ms l size
  | _ => False

/-- The request that committed a layout to a holder last, in the run from `o` to `s`: it settled the
layout before, with the acts `bs` in between, and the acts `cs` came since. -/
structure CommittedLast (o : Session) (ms : List Moment) (s : Session) (h : Nat) (x : Holder)
    (r : Request) (size : Size) (as bs cs : List Store.Act) : Prop where
  acts : o.runActs ms = as ++ .settleLayout r.layout size :: bs ++ .commitLayout r size :: cs
  built : (o.store.acts as).Built r.tree
  item : x.state.item = some r.item
  component : r.item.value.component? = some r.component
  tree : x.state.slot.tree? = some r.tree
  height : x.state.height = some size.height
  last : ∀ r' size', .commitLayout r' size' ∈ cs → r'.call.holder = h → r'.tree ≠ r.tree
  settled : ∀ l size', .settleLayout l size' ∈ cs → l.tree = r.tree →
    s.InCall h l size' ∨ o.CutShort ms h l size'

/-- What holds of a holder, with the item it got at `o`, in a run in which it keeps the item and is
laid out in calls that wait. -/
structure Tallied (o : Session) (h : Nat) (item : Shared Descriptor) (ms : List Moment)
    (s : Session) : Prop where
  run : o.follow? ms = some s
  keeps : ∃ x, s.store.holders[h]? = some x ∧ x.state.item = some item
  busy : ∀ p, ¬ s.store.Idles p h
  frames : ∀ j, ∀ f ∈ s.work j, f.holder? = some h → o.Serves ms item f
  valid : ∀ x, s.store.holders[h]? = some x → x.state.valid →
    ∃ r size as bs cs, CommittedLast o ms s h x r size as bs cs

/-! ## Frames -/

theorem Serves.concat (hs : o.Serves ms item f) (hrun : o.follow? ms = some s)
    (hn : s.next? m = some s') : o.Serves (ms ++ [m]) item f := by
  cases f with
  | layout l sequel stage =>
      cases sequel with
      | commit r => exact ⟨hs.1, fun size hsize => (hs.2 size hsize).concat hrun hn⟩
      | _ => exact hs
  | _ => exact hs

theorem serves_launch {t : Store} (hg : g ∈ launchFrames t r) (hw : r.call.background = false)
    (hitem : r.item = item) : o.Serves ms item g := by
  rw [launchFrames_of_waits hw] at hg
  obtain rfl := List.mem_singleton.1 hg
  exact ⟨hitem, fun size hsize => nomatch hsize⟩

theorem Tallied.serves_opening (ht : Tallied o h item ms s) {call : Call}
    (hf : s.top? i = some (.openRequest call))
    (hplain : ∀ a ∈ s.momentActs (.carry i), a.departs h item = false)
    (hg : g ∈ openingFrames s.store call) (hh : g.holder? = some h) :
    o.Serves (ms ++ [.carry i]) item g := by
  obtain ⟨x, hx, hitem⟩ := ht.keeps
  have hwaits (hcall : call.holder = h) : call.background = false := by
    have hdeparts := hplain (.openRequest call) (by
      rw [momentActs_carry hf]
      exact List.mem_cons_self)
    simpa [Store.Act.departs, hcall] using hdeparts
  have hsame {item' : Shared Descriptor} {y : Holder} (hcall : call.holder = h)
      (hy : s.store.holders[call.holder]? = some y) (hi : y.state.item = some item') :
      item' = item := by
    rw [hcall, hx] at hy
    obtain rfl := Option.some.inj hy
    exact Option.some.inj (hi.symm.trans hitem)
  unfold openingFrames at hg
  split at hg
  · next r ho =>
      obtain ⟨rfl, -, -, y, hy, hi⟩ := live?_of_openRequest (congrArg Prod.snd ho)
      have hcall := holder?_of_mem_launchFrames hg hh
      exact serves_launch hg (hwaits hcall) (hsame hcall hy hi)
  · next ho =>
      obtain ⟨-, y, hy, hi, -⟩ := of_vacant_openRequest (congrArg Prod.snd ho)
      obtain rfl := List.mem_singleton.1 hg
      have hcall := Option.some.inj hh
      exact ⟨hwaits hcall, hsame hcall hy hi⟩
  · next ho =>
      obtain ⟨-, y, hy, hi, -⟩ := of_vacant_openRequest (congrArg Prod.snd ho)
      simp only [List.mem_cons, List.not_mem_nil, or_false] at hg
      rcases hg with rfl | rfl
      · cases hh
      · have hcall := Option.some.inj hh
        exact ⟨hwaits hcall, hsame hcall hy hi⟩
  · cases hg

theorem Tallied.serves_claim (ht : Tallied o h item ms s) {call : Call}
    {item' : Shared Descriptor} {component : Component} {handle : WeakHandle}
    {listener : Option MeasureListener}
    (hf : s.top? i = some (.claimTree call item' component handle listener))
    (hg : g ∈ claimFrames s.store call item' component handle listener)
    (hh : g.holder? = some h) : o.Serves (ms ++ [.carry i]) item g := by
  have hserves (hcall : call.holder = h) := ht.frames i _ (mem_work_of_top? hf rfl)
    (congrArg some hcall)
  unfold claimFrames at hg
  split at hg
  · obtain ⟨hw, hitem⟩ := hserves (holder?_of_mem_launchFrames hg hh)
    exact serves_launch hg hw hitem
  · obtain ⟨hw, hitem⟩ := hserves (holder?_of_mem_launchFrames hg hh)
    exact serves_launch hg hw hitem
  · cases hg

theorem Tallied.serves_layout (ht : Tallied o h item ms s) (hsound : s.Sound)
    (hn : s.next? (.carry i) = some s') {stage' : Stage}
    (hf : s.top? i = some (.layout l sequel stage)) (hnext : stage.Next stage')
    (hh : (Frame.layout l sequel stage').holder? = some h) :
    o.Serves (ms ++ [.carry i]) item (.layout l sequel stage') := by
  cases sequel with
  | commit r =>
      obtain ⟨hitem, hsettled⟩ := ht.frames i _ (mem_work_of_top? hf rfl) hh
      refine ⟨hitem, fun size hsize => ?_⟩
      rcases hnext.settled?.1 hsize with rfl | hsize
      · refine SettlesTo.after ht.run hn ⟨[], [], ?_, (hsound.top hf).1⟩
        rw [runActs_cons hn, runActs_nil, List.append_nil, momentActs_carry hf]
        rfl
      · exact (hsettled size hsize).concat ht.run hn
  | _ => cases hh

theorem Tallied.frames_next? (ht : Tallied o h item ms s) (hsound : s.Sound)
    (hn : s.next? m = some s') (hplain : ∀ a ∈ s.momentActs m, a.departs h item = false)
    (hg : g ∈ s'.work j) (hh : g.holder? = some h) : o.Serves (ms ++ [m]) item g := by
  have hold {j : Nat} (hg : g ∈ s.work j) : o.Serves (ms ++ [m]) item g :=
    (ht.frames j g hg hh).concat ht.run hn
  cases happens_of_next? hn with
  | @give k c hk =>
      rcases mem_work_push hg with hg | hg
      · simp only [List.mem_cons, List.not_mem_nil, or_false] at hg
        rcases hg with rfl | rfl <;> cases hh
      · exact hold hg
  | look k => exact hold (((s.like_view? k).work j) ▸ hg)
  | @carry i f _ hf hturn =>
      rcases hturn.mem_work hg with hg | hg | ⟨rfl, fs, hfs, hg, -⟩
      · exact hold ((work_off_suffix hf j).subset hg)
      · cases hg <;> cases hh
      · cases hfs with
        | opened call => exact ht.serves_opening hf hplain hg hh
        | claimed => exact ht.serves_claim hf hg hh
        | layout l sequel hnext =>
            obtain rfl := List.mem_singleton.1 hg
            exact ht.serves_layout hsound hn hf hnext hh
        | request c hc =>
            obtain rfl := List.mem_singleton.1 hg
            trivial
        | @release name k hname =>
            -- the holder is not released in the run
            obtain rfl := List.mem_singleton.1 hg
            obtain rfl : k = h := Option.some.inj hh
            have hacts := momentActs_carry hf
            rw [frameActs_command, commandActs_onHolder (by rw [holder, hname]; rfl)] at hacts
            rw [hacts] at hplain
            exact absurd (hplain _ List.mem_cons_self) (by simp [Store.Act.departs])
        | script step rest =>
            simp only [List.mem_cons, List.not_mem_nil, or_false] at hg
            rcases hg with rfl | rfl | rfl <;> cases hh
        | dequeued | served =>
            simp only [List.mem_cons, List.not_mem_nil, or_false] at hg
            rcases hg with rfl | rfl <;> cases hh
        | nothing => cases hg
        | _ =>
            obtain rfl := List.mem_singleton.1 hg
            cases hh

/-! ## The holder -/

theorem resets_of_departs {a : Store.Act} (ha : a.departs h item = false) : a.resets h = false := by
  rw [← Bool.not_eq_true]
  intro hr
  rw [Store.Act.eq_of_resets hr] at ha
  simp [Store.Act.departs] at ha

theorem same_of_departs {a : Store.Act} (ha : a.departs h item = false) {item' : Shared Descriptor}
    (hd : a.describes? h = some item') : item'.same item := by
  cases a with
  | change k c =>
      cases c with
      | describe other =>
          rw [Store.Act.describes?] at hd
          split at hd
          · next hk =>
              obtain rfl := Option.some.inj hd
              simpa [Store.Act.departs, hk] using ha
          · cases hd
      | _ => cases hd
  | _ => cases hd

/-- What a holder is described by is in a register. -/
theorem mentions_of_describes {a : Store.Act} {item' : Shared Descriptor}
    (ha : a ∈ s.momentActs m) (hd : a.describes? h = some item') : s.Mentions item' := by
  obtain ⟨i, f, rfl, hf⟩ := exists_of_mem_momentActs ha
  rw [momentActs_carry hf] at ha
  cases a with
  | change k c =>
      cases c with
      | describe other =>
          rw [Store.Act.describes?] at hd
          split at hd
          · obtain rfl := Option.some.inj hd
            exact .register ((licensed ha).2 _ rfl)
          · cases hd
      | _ => cases hd
  | _ => cases hd

/-- The holder keeps its descriptor, since it is given no other instance. -/
theorem Tallied.keeps_next? (ht : Tallied o h item ms s) (hcat : s.Catalogued)
    (hn : s.next? m = some s') (hplain : ∀ a ∈ s.momentActs m, a.departs h item = false) :
    ∃ x, s'.store.holders[h]? = some x ∧ x.state.item = some item := by
  obtain ⟨x, hx, hitem⟩ := ht.keeps
  obtain ⟨y, hy, hlast⟩ := Store.item_acts hx fun a ha => resets_of_departs (hplain a ha)
  rw [← store_next? hn] at hy
  refine ⟨y, hy, ?_⟩
  rw [hlast, Store.lastGiven?_eq_lastDescribed? (unoffered_of_not_idles ht.busy m)]
  cases hd : Store.lastDescribed? h (s.momentActs m) with
  | none => exact hitem
  | some item' =>
      obtain ⟨a, ha, hd⟩ := Store.exists_of_lastDescribed? hd
      exact congrArg some (hcat.eq_of_same (mentions_of_describes ha hd) (.holder hx hitem)
        (same_of_departs (hplain a ha) hd))

theorem Tallied.busy_next? (ht : Tallied o h item ms s) (hn : s.next? m = some s') (p : Nat) :
    ¬ s'.store.Idles p h := by
  intro hi
  rw [store_next? hn] at hi
  rcases s.store.idles_acts hi with hi | ha | ⟨pool, ha, hmem⟩
  · exact ht.busy p hi
  · obtain ⟨i, f, rfl, hf⟩ := exists_of_mem_momentActs ha
    rw [momentActs_carry hf] at ha
    obtain ⟨rfl, -⟩ := licensed ha
    exact ht.frames i _ (mem_work_of_top? hf rfl) rfl
  · obtain ⟨i, f, rfl, hf⟩ := exists_of_mem_momentActs ha
    rw [momentActs_carry hf] at ha
    have hempty : pool.idle = [] := licensed ha
    rw [hempty] at hmem
    cases hmem

/-- A call that ends with the tree of the holder commits its layout, since the holder has the
descriptor that the call was made for. -/
theorem Tallied.isCurrent (ht : Tallied o h item ms s) {stage : Stage}
    (hf : .layout l (.commit r) stage ∈ s.work i) (hr : r.call.holder = h)
    (hx : s.store.holders[h]? = some x) (htree : x.state.slot.tree? = some r.tree) :
    x.state.isCurrent r.item r.tree := by
  obtain ⟨hserves, -⟩ := ht.frames i _ hf (congrArg some hr)
  obtain ⟨y, hy, hitem⟩ := ht.keeps
  obtain rfl := Option.some.inj (hx.symm.trans hy)
  exact Holder.State.isCurrent_iff.2 ⟨htree, item, hitem, hserves ▸ item.same_self⟩

/-! ## The layout that was committed last -/

/-- What was committed last stays so while no call commits another layout. -/
theorem CommittedLast.next? {y : Holder} (hc : CommittedLast o ms s h x r size as bs cs)
    (hrun : o.follow? ms = some s) (hn : s.next? m = some s') (hsound : s.Sound)
    (hx : s.store.holders[h]? = some x) (hstray : s.strays h m = false)
    (hitem : y.state.item = x.state.item)
    (htree : y.state.slot.tree? = x.state.slot.tree?) (hheight : y.state.height = x.state.height)
    (hdeliver : ∀ i l r' size', m = .carry i → r'.call.holder = h →
      s.top? i = some (.layout l (.commit r') (.deliver (.ok size'))) → r'.tree ≠ r.tree) :
    CommittedLast o (ms ++ [m]) s' h y r size as bs (cs ++ s.momentActs m) where
  acts := by
    rw [runActs_concat hrun hn, hc.acts]
    simp
  built := hc.built
  item := hitem.trans hc.item
  component := hc.component
  tree := htree.trans hc.tree
  height := hheight.trans hc.height
  last := by
    intro r' size' hmem hr'
    rcases List.mem_append.1 hmem with hmem | hmem
    · exact hc.last r' size' hmem hr'
    · obtain ⟨i, f, rfl, hf⟩ := exists_of_mem_momentActs hmem
      rw [momentActs_carry hf] at hmem
      obtain ⟨l, rfl⟩ := licensed hmem
      exact hdeliver i l r' size' rfl hr' hf
  settled := by
    intro l size' hmem hl
    rcases List.mem_append.1 hmem with hmem | hmem
    · rcases hc.settled l size' hmem hl with hin | hcut
      · rcases hin.next? hrun hn with hin | hcut | ⟨i, r', rfl, hr', hf⟩
        · exact .inl hin
        · exact .inr hcut
        · obtain ⟨-, rfl, -⟩ := hsound.top hf
          exact absurd hl (hdeliver i _ r' size' rfl hr' hf)
      · exact .inr (hcut.concat m)
    · obtain ⟨i, f, rfl, hf⟩ := exists_of_mem_momentActs hmem
      rw [momentActs_carry hf] at hmem
      obtain ⟨sequel, rfl⟩ := licensed hmem
      have hlive : s.store.live? h = some l.tree := by
        rw [s.store.live?_eq hx, hc.tree, hl]
      have hfor : sequel.isFor h := by
        simpa [strays, hf, hlive] using hstray
      cases sequel with
      | commit r' =>
          obtain ⟨stage', hnext, hg⟩ := layout_goesOn hf (by
            rintro outcome ⟨⟩) hn
          exact .inl ⟨i, r', stage', of_decide_eq_true hfor, hnext.settled?.2 (.inl rfl), hg⟩
      | _ => cases hfor

/-- A step that commits no layout to the holder leaves the height of a valid holder alone. -/
theorem Tallied.unchanged (ht : Tallied o h item ms s) (hf : s.top? i = some f)
    (hplain : ∀ a ∈ s.momentActs (.carry i), a.departs h item = false)
    (hx : s.store.holders[h]? = some x)
    (hnone : ∀ l r size, f = .layout l (.commit r) (.deliver (.ok size)) → r.call.holder ≠ h)
    (hy : (s.store.acts (s.momentActs (.carry i))).holders[h]? = some y) (hv : y.state.valid) :
    x.state.valid ∧ y.state.slot.tree? = x.state.slot.tree? ∧
      y.state.height = x.state.height := by
  have hhoused : x.Housed := fun hvx => by
    obtain ⟨r, size, as, bs, cs, hc⟩ := ht.valid x hx hvx
    rw [hc.tree]
    exact Option.some_ne_none _
  have hcommit : ∀ r size, .commitLayout r size ∈ s.momentActs (.carry i) → r.call.holder ≠ h := by
    intro r size ha
    rw [momentActs_carry hf] at ha
    obtain ⟨l, rfl⟩ := licensed ha
    exact hnone l r size rfl
  have hvalidates : ∀ a ∈ s.momentActs (.carry i), a.validates h = false := by
    intro a ha
    cases a with
    | commitLayout r size => exact decide_eq_false (hcommit r size ha)
    | confirmLayout r =>
        refine decide_eq_false fun hr => ?_
        rw [momentActs_carry hf] at ha
        obtain rfl : f = .confirm r := licensed ha
        exact ht.frames i _ (mem_work_of_top? hf rfl) (congrArg some hr)
    | _ => rfl
  have hsets : ∀ a ∈ s.momentActs (.carry i), a.setsHeight h = false := by
    intro a ha
    have hdeparts := hplain a ha
    cases a with
    | commitLayout r size => exact decide_eq_false (hcommit r size ha)
    | reset k => exact hdeparts
    | writeHeight w height => exact hdeparts
    | change k c =>
        cases c with
        | setHeight height => exact hdeparts
        | _ => rfl
    | _ => rfl
  obtain ⟨hvx, htree, -⟩ := Store.valid_acts hx hhoused hvalidates hy hv
  exact ⟨hvx, htree, Store.height_acts hx hsets hy⟩

/-- The last step of a call commits the layout that the call settled before. -/
theorem Tallied.committedLast (ht : Tallied o h item ms s) (hsound : s.Sound)
    (hn : s.next? (.carry i) = some s')
    (hf : s.top? i = some (.layout l (.commit r) (.deliver (.ok size)))) (hr : r.call.holder = h)
    (hx : s.store.holders[h]? = some x) (hc : x.state.isCurrent r.item r.tree) :
    ∃ as bs, CommittedLast o (ms ++ [.carry i]) s' h
      { x with state := x.state.commit size.height } r size as bs [] := by
  obtain ⟨hitem, hsettled⟩ := ht.frames i _ (mem_work_of_top? hf rfl) (congrArg some hr)
  obtain ⟨as, bs, hacts, hbuilt⟩ := hsettled size rfl
  obtain ⟨-, rfl, hcomponent, -⟩ := hsound.top hf
  obtain ⟨y, hy, hkept⟩ := ht.keeps
  obtain rfl := Option.some.inj (hx.symm.trans hy)
  refine ⟨as, bs, ?_, hbuilt, hitem ▸ hkept, hcomponent, (Holder.State.isCurrent_iff.1 hc).1, rfl,
    fun _ _ ha => (nomatch ha), fun _ _ ha => (nomatch ha)⟩
  rw [runActs_concat ht.run hn, hacts, momentActs_carry hf]
  rfl

/-- A holder is valid by the layout that was committed to it before, or by the one that is committed
in this step. -/
theorem Tallied.valid_next? (ht : Tallied o h item ms s) (hsound : s.Sound) (hcat : s.Catalogued)
    (hn : s.next? m = some s') (hplain : ∀ a ∈ s.momentActs m, a.departs h item = false)
    (hstray : s.strays h m = false) (hy : s'.store.holders[h]? = some y) (hv : y.state.valid) :
    ∃ r size as bs cs, CommittedLast o (ms ++ [m]) s' h y r size as bs cs := by
  obtain ⟨x, hx, hitem⟩ := ht.keeps
  have hsame : y.state.item = x.state.item := by
    obtain ⟨z, hz, hitem'⟩ := ht.keeps_next? hcat hn hplain
    obtain rfl := Option.some.inj (hy.symm.trans hz)
    exact hitem'.trans hitem.symm
  have hkept (hvx : x.state.valid) (htree : y.state.slot.tree? = x.state.slot.tree?)
      (hheight : y.state.height = x.state.height)
      (hdeliver : ∀ i l r' size', m = .carry i → r'.call.holder = h →
        s.top? i = some (.layout l (.commit r') (.deliver (.ok size'))) →
          x.state.slot.tree? ≠ some r'.tree) :
      ∃ r size as bs cs, CommittedLast o (ms ++ [m]) s' h y r size as bs cs := by
    obtain ⟨r, size, as, bs, cs, hc⟩ := ht.valid x hx hvx
    refine ⟨r, size, as, bs, _, hc.next? ht.run hn hsound hx hstray hsame htree hheight ?_⟩
    intro i l r' size' hm hr' hf heq
    exact hdeliver i l r' size' hm hr' hf (heq ▸ hc.tree)
  rw [store_next? hn] at hy
  cases happens_of_next? hn with
  | give =>
      obtain rfl := Option.some.inj (hx.symm.trans hy)
      exact hkept hv rfl rfl fun i l r' size' hm => nomatch hm
  | look =>
      obtain rfl := Option.some.inj (hx.symm.trans hy)
      exact hkept hv rfl rfl fun i l r' size' hm => nomatch hm
  | @carry i f _ hf hturn =>
      by_cases hd : ∃ l r size, f = .layout l (.commit r) (.deliver (.ok size)) ∧ r.call.holder = h
      · obtain ⟨l, r, size, rfl, hr⟩ := hd
        have hstep := s.store.holders_act (.commitLayout r size) hx
        rw [momentActs_carry hf] at hy
        obtain rfl := Option.some.inj (hstep.symm.trans hy)
        by_cases hc : x.state.isCurrent r.item r.tree
        · rw [Store.Act.onHolder, if_pos ⟨hr, hc⟩]
          obtain ⟨as, bs, hcommitted⟩ := ht.committedLast hsound hn hf hr hx hc
          exact ⟨r, size, as, bs, [], hcommitted⟩
        · rw [Store.Act.onHolder, if_neg fun h => hc h.2] at hv hkept ⊢
          refine hkept hv rfl rfl ?_
          rintro _ _ r' size' ⟨⟩ - hf' htree
          cases hf'.symm.trans hf
          exact hc (ht.isCurrent (mem_work_of_top? hf rfl) hr hx htree)
      · obtain ⟨hvx, htree, hheight⟩ := ht.unchanged hf hplain hx
          (fun l r size heq hr => hd ⟨l, r, size, heq, hr⟩) hy hv
        refine hkept hvx htree hheight ?_
        rintro _ l r' size' ⟨⟩ hr' hf'
        exact absurd ⟨l, r', size', Option.some.inj (hf.symm.trans hf'), hr'⟩ hd

/-! ## Runs -/

theorem Tallied.next? (ht : Tallied o h item ms s) (hr : s.Reachable) (hn : s.next? m = some s')
    (hplain : ∀ a ∈ s.momentActs m, a.departs h item = false) (hstray : s.strays h m = false) :
    Tallied o h item (ms ++ [m]) s' where
  run := follow?_concat ht.run hn
  keeps := ht.keeps_next? hr.catalogued hn hplain
  busy := ht.busy_next? hn
  frames _ _ hg hh := ht.frames_next? hr.sound hn hplain hg hh
  valid _ hy hv := ht.valid_next? hr.sound hr.catalogued hn hplain hstray hy hv

theorem Tallied.follow? {ns : List Moment} (ht : Tallied o h item ns s) (hr : s.Reachable)
    (hrun : s.follow? ms = some s') (hcalls : s.onlyCalls h item ms) :
    Tallied o h item (ns ++ ms) s' := by
  induction ms generalizing s ns with
  | nil =>
      obtain rfl := Option.some.inj hrun
      rwa [List.append_nil]
  | cons m ms ih =>
      obtain ⟨t, hn, hrun⟩ := follow?_cons_eq_some.1 hrun
      obtain ⟨hplain, hstray, hcalls⟩ := (onlyCalls_cons hn).1 hcalls
      have hend := ih (ht.next? hr hn hplain hstray) (hr.follow? (follow?_singleton hn)) hrun hcalls
      rwa [List.append_assoc, List.singleton_append] at hend

section Acquire

variable {p : Nat} {policy : Policy} {factory : Option Factory}

/-- A session in which an item gets a holder from a pool, be it a new one or one that an unbroken
run left there. -/
structure Supplies (o : Session) (p h : Nat) : Prop where
  reachable : o.Reachable
  taken : (o.store.takeHolder p).2.1 = h
  orderly : (o.store.offered? p).isSome → o.Orderly

/-- An item has the holder it gets at once, and the holder is not valid yet. -/
theorem Supplies.holder_of_acquire (ho : o.Supplies p h) :
    ∃ x, (o.store.act (.acquire p item policy factory)).holders[h]? = some x ∧
      x.state.item = some item ∧ x.state.valid = false := by
  have hh := ho.taken
  cases hp : o.store.offered? p with
  | some k =>
      rw [o.store.takeHolder_of_offered? hp] at hh
      obtain rfl : k = h := hh
      obtain ⟨g, hg⟩ := ((ho.orderly (hp ▸ rfl)).rested.idle p k (.of_offered? _ hp)).fresh
      refine ⟨_, o.store.holders_act _ hg, ?_⟩
      rw [Store.Act.onHolder, if_pos hp]
      exact ⟨rfl, rfl⟩
  | none =>
      rw [o.store.takeHolder_of_not_offered? hp] at hh
      obtain rfl : o.store.holders.length = h := hh
      refine ⟨{ Holder.fresh p with state := ({} : Holder.State).configure item policy factory },
        ?_, rfl, rfl⟩
      rw [Store.act, Store.configure, Store.getElem?_modifyState,
        o.store.takeHolder_of_not_offered? hp]
      simp [Holder.fresh]

/-- No pool keeps the holder that an item got. -/
theorem Supplies.busy_of_acquire (ho : o.Supplies p h) (hf : o.top? i = some f)
    (hacq : o.momentActs (.carry i) = [.acquire p item policy factory])
    (hn : o.next? (.carry i) = some t) (ht : Turn (o.off i) i f t) (q : Nat) :
    ¬ t.store.Idles q h := by
  intro hi
  have hh := ho.taken
  have hold : o.store.Idles q h := by
    have hi' := hi
    rw [store_next? hn, hacq] at hi'
    rcases o.store.idles_acts hi' with hi' | ha | ⟨pool, ha, -⟩
    · exact hi'
    · cases List.mem_singleton.1 ha
    · cases List.mem_singleton.1 ha
  cases hp : o.store.offered? p with
  | some k =>
      rw [o.store.takeHolder_of_offered? hp] at hh
      obtain rfl : k = h := hh
      have hkept := not_acquired ((ho.orderly (hp ▸ rfl)).rested.off hf) hold ht hi (by
        rw [← momentActs_carry hf, hacq]
        exact List.mem_cons_self)
      exact of_decide_eq_false hkept hp
  | none =>
      rw [o.store.takeHolder_of_not_offered? hp] at hh
      exact Nat.ne_of_lt (ho.reachable.sound.idle q h hold) hh.symm

theorem Supplies.unreferred (ho : o.Supplies p h) : o.Unreferred h := by
  have hh := ho.taken
  cases hp : o.store.offered? p with
  | some k => exact hh ▸ (ho.orderly (hp ▸ rfl)).unreferred_takeHolder p
  | none =>
      rw [o.store.takeHolder_of_not_offered? hp] at hh
      exact ho.reachable.unreferred_of_le (Nat.le_of_eq hh)

/-- Nobody is at work for a holder that nobody referred to before a step. -/
theorem holder?_ne_of_unreferred (hu : o.Unreferred h) (hf : o.top? i = some f)
    (ht : Turn (o.off i) i f t) (hg : g ∈ t.work j) : g.holder? ≠ some h := by
  intro hgh
  rcases ht.mem_work hg with hg | hg | ⟨-, fs, hfs, hg, -⟩
  · exact hu.workless j g ((work_off_suffix hf j).subset hg) hgh
  · cases hg <;> cases hgh
  · rcases holder?_of_ensues hfs hg hgh with hheld | ⟨hfh, -⟩
    · exact hu.unheld hheld
    · exact hu.workless i f (mem_work_of_top? hf (f.isServe_of_holder? hfh)) hfh

theorem Supplies.tallied (ho : o.Supplies p h)
    (hacq : o.momentActs m = [.acquire p item policy factory]) (hn : o.next? m = some t) :
    Tallied t h item [] t := by
  obtain ⟨i, f, rfl, hf⟩ := exists_of_mem_momentActs (hacq ▸ List.mem_cons_self)
  have hturn : Turn (o.off i) i f t := by
    cases happens_of_next? hn with
    | carry hf' ht =>
        obtain rfl := Option.some.inj (hf'.symm.trans hf)
        exact ht
  have hstore : t.store = o.store.act (.acquire p item policy factory) := by
    rw [store_next? hn, hacq]
    rfl
  obtain ⟨x, hx, hitem, hvalid⟩ : ∃ x, t.store.holders[h]? = some x ∧
      x.state.item = some item ∧ x.state.valid = false := by
    rw [hstore]
    exact ho.holder_of_acquire
  exact {
    run := rfl
    keeps := ⟨x, hx, hitem⟩
    busy := ho.busy_of_acquire hf hacq hn hturn
    frames := fun j g hg hgh => absurd hgh (holder?_ne_of_unreferred ho.unreferred hf hturn hg)
    valid := fun y hy hv => by
      obtain rfl := Option.some.inj (hx.symm.trans hy)
      rw [hvalid] at hv
      cases hv }

end Acquire

/-- Whether a holder that renders a component is laid out is a matter of its tree. -/
theorem requested_of_isLaidOut (hx : s.store.holders[h]? = some x)
    (hitem : x.state.item = some item) {component : Component}
    (hcomponent : item.value.component? = some component) (hl : s.store.isLaidOut h)
    {tree : Tree} {t : TreeRef} {c : Tree.Committed}
    (ht : x.state.slot.tree? = some t) (htree : s.store.tree? t = some tree)
    (hc : tree.committed = some c) : x.state.requested = some c.bounds := by
  have hview : item.value.rendersView = false := by
    unfold Descriptor.component? at hcomponent
    unfold Descriptor.rendersView
    split at hcomponent
    · rfl
    · cases hcomponent
  unfold Store.isLaidOut at hl
  rw [hx] at hl
  simp only [hitem, hview, ht, Option.bind_some, htree, Bool.false_or] at hl
  cases hreq : x.state.requested with
  | none =>
      rw [hreq] at hl
      cases hl
  | some bounds =>
      rw [hreq] at hl
      simp only [Tree.isLaidOutFor, hc, decide_eq_true_eq] at hl
      rw [hl]

theorem not_inCall (hquiet : ∀ u ∈ s.threads, u.references h = 0) : ¬ s.InCall h l size := by
  rintro ⟨j, r, stage, hr, -, hg⟩
  obtain ⟨u, hu, hg⟩ := mem_stack_of_mem_work hg
  have hcount := hquiet u hu
  rw [Thread.references, List.countP_eq_zero] at hcount
  exact hcount _ hg (decide_eq_true (congrArg some hr))

/-- A holder keeps the item that it was acquired for, is laid out only in calls that wait, and has
its height set by nobody else. Whenever no call is in progress and the holder is valid and laid out,
its height is that of a size to which one call laid out the tree in use, the last call that
committed a layout of the tree to the holder. This is the size that the tree has for the constraints
requested last, unless another call laid the tree out after that call did, either before that call
committed its layout to the holder, or in vain because a panic cut it short. -/
theorem Supplies.height_of_calls {p : Nat} {policy : Policy} {factory : Option Factory}
    (ho : o.Supplies p h) (hacq : o.momentActs m = [.acquire p item policy factory])
    (hn : o.next? m = some t)
    (hrun : t.follow? ms = some s) (hcalls : t.onlyCalls h item ms)
    (hquiet : ∀ u ∈ s.threads, u.references h = 0) (hx : s.store.holders[h]? = some x)
    (hv : x.state.valid) (hl : s.store.isLaidOut h) :
    ∃ r size as bs cs tree c,
      t.runActs ms = as ++ .settleLayout r.layout size :: bs ++ .commitLayout r size :: cs ∧
      (∀ r' size', .commitLayout r' size' ∈ cs → r'.call.holder = h → r'.tree ≠ r.tree) ∧
      x.state.slot.tree? = some r.tree ∧ s.store.tree? r.tree = some tree ∧
      tree.committed = some c ∧ x.state.requested = some c.bounds ∧
      x.state.height = some size.height ∧
      (c.size = size ∨ ∃ l size', l.tree = r.tree ∧ c = ⟨l.bounds, size'⟩ ∧
        (.settleLayout l size' ∈ bs ∨
          .settleLayout l size' ∈ cs ∧ t.CutShort ms h l size')) := by
  have ht := ho.reachable.follow? (follow?_singleton hn)
  have htallied := (ho.tallied hacq hn).follow? ht hrun hcalls
  rw [List.nil_append] at htallied
  obtain ⟨r, size, as, bs, cs, hc⟩ := htallied.valid x hx hv
  obtain ⟨tree, c, htree, hcommitted, hlast⟩ := (t.store.acts as).committed_of_settled
    (l := r.layout) size hc.built (bs ++ .commitLayout r size :: cs)
  have hstore : s.store = ((t.store.acts as).act (.settleLayout r.layout size)).acts
      (bs ++ .commitLayout r size :: cs) := by
    rw [store_follow? hrun, hc.acts, List.append_assoc, Store.acts_append, List.cons_append,
      Store.acts_cons]
  rw [← hstore] at htree
  refine ⟨r, size, as, bs, cs, tree, c, hc.acts, hc.last, hc.tree, htree, hcommitted,
    requested_of_isLaidOut hx hc.item hc.component hl hc.tree htree hcommitted, hc.height, ?_⟩
  rcases hlast with rfl | ⟨l, size', hmem, hl', rfl⟩
  · exact .inl rfl
  · refine .inr ⟨l, size', hl', rfl, ?_⟩
    simp only [List.mem_append, List.mem_cons, reduceCtorEq, false_or] at hmem
    rcases hmem with hmem | hmem
    · exact .inl hmem
    · exact .inr ⟨hmem, (hc.settled l size' hmem hl').resolve_left (not_inCall hquiet)⟩

/-! ### Two calls on a holder

The measure listener of the first call asks for a smaller layout, which is committed to the tree
last and to the holder first. In another session the listener panics when it is told of the second
layout.
-/

namespace TwoCalls

def small : Bounds := ⟨.exactly 100, .exactly 200⟩

def large : Bounds := ⟨.exactly 300, .exactly 400⟩

def nesting : Program where
  steps := []
  scripts := [[[{ name := none, command := .layout small "e" "" "h" false }]]]

def panicking : Program where
  steps := []
  scripts := [[[], [{ name := none, command := .panic "boom" }]]]

def upToAcquire : List Moment :=
  told (.component "c" "c" .byName) ++ told (.item "d" (.component "c") []) ++
    told (.engine "e" .standard {}) ++
    [.give mainThread (.acquire "d" [] (some ⟨none, false, none, some 0⟩) "shared" (some "h"))]

def nested : List Moment :=
  [.carry mainThread, .give mainThread (.layout large "e" "" "h" false)] ++
    List.replicate 22 (.carry mainThread)

def cutShort : List Moment :=
  [.carry mainThread, .give mainThread (.layout small "e" "" "h" false)] ++
    List.replicate 12 (.carry mainThread) ++
    [.give mainThread (.layout large "e" "" "h" false)] ++ List.replicate 8 (.carry mainThread)

def atNesting : Session := ((ofProgram nesting).follow? upToAcquire).get (by decide)

def atPanicking : Session := ((ofProgram panicking).follow? upToAcquire).get (by decide)

def fromNesting : Session := (atNesting.next? (.carry mainThread)).get (by decide)

def fromPanicking : Session := (atPanicking.next? (.carry mainThread)).get (by decide)

def afterNesting : Session := (fromNesting.follow? nested).get (by decide)

def afterPanic : Session := (fromPanicking.follow? cutShort).get (by decide)

def first : Shared Descriptor := ⟨0, { content := .component ⟨0, .byName, "c"⟩ }⟩

def listening : Factory := ⟨none, false, none, some 0⟩

/-- A holder is valid at one height, and its tree has a layout of another one for the constraints
requested last. -/
def Differs (s : Session) (h : Nat) (height other : Int32) : Prop :=
  ∃ x ∈ s.store.holders[h]?, x.state.valid ∧ x.state.height = some height ∧
    ∃ t ∈ x.state.slot.tree?, ∃ tree ∈ s.store.tree? t, ∃ c ∈ tree.committed,
      x.state.requested = some c.bounds ∧ c.size.height = other

instance (s : Session) (h : Nat) (height other : Int32) : Decidable (Differs s h height other) :=
  inferInstanceAs (Decidable (∃ _ ∈ _, _ ∧ _ ∧ ∃ _ ∈ _, ∃ _ ∈ _, ∃ _ ∈ _, _))

theorem reachable_atNesting : atNesting.Reachable := ⟨_, upToAcquire, (Option.some_get _).symm⟩

theorem height_of_another :
    (atNesting.Reachable ∧
        atNesting.momentActs (.carry mainThread) = [.acquire 0 first {} (some listening)] ∧
        fromNesting.onlyCalls 0 first nested ∧
        (∀ u ∈ afterNesting.threads, u.references 0 = 0) ∧ afterNesting.store.isLaidOut 0 ∧
        Differs afterNesting 0 400 200) ∧
      atPanicking.Reachable ∧
        atPanicking.momentActs (.carry mainThread) = [.acquire 0 first {} (some listening)] ∧
        fromPanicking.onlyCalls 0 first cutShort ∧
        (∀ u ∈ afterPanic.threads, u.references 0 = 0) ∧ afterPanic.store.isLaidOut 0 ∧
        Differs afterPanic 0 200 400 :=
  ⟨⟨reachable_atNesting, rfl, by decide, by decide, by decide, by decide⟩,
    ⟨_, upToAcquire, (Option.some_get _).symm⟩, rfl, by decide, by decide, by decide, by decide⟩

theorem supplies_atNesting : atNesting.Supplies 0 0 where
  reachable := reachable_atNesting
  taken := by decide
  orderly := fun h => absurd h (by decide)

/-- The call that committed to the holder last had laid the tree out before another one did. -/
theorem laid_out_since : ∃ r size as bs cs l size',
    fromNesting.runActs nested =
        as ++ .settleLayout r.layout size :: bs ++ .commitLayout r size :: cs ∧
      size.height = 400 ∧ l.tree = r.tree ∧ size'.height = 200 ∧
      (.settleLayout l size' ∈ bs ∨
        .settleLayout l size' ∈ cs ∧ fromNesting.CutShort nested 0 l size') := by
  have hx : afterNesting.store.holders[0]? =
      some ((afterNesting.store.holders[0]?).get (by decide)) := (Option.some_get _).symm
  have hn : atNesting.next? (.carry mainThread) = some fromNesting := (Option.some_get _).symm
  have hrun : fromNesting.follow? nested = some afterNesting := (Option.some_get _).symm
  obtain ⟨r, size, as, bs, cs, tree, c, hacts, -, hlive, htree, hcommitted, -, hheight, hsince⟩ :=
    supplies_atNesting.height_of_calls rfl hn hrun (by decide) (by decide) hx (by decide)
      (by decide)
  have hlarge : size.height = 400 := (Option.some.inj hheight).symm
  have hsmall : c.size.height = 200 := by
    have hlaid : (afterNesting.store.tree? ⟨0, 0⟩).any
        (·.committed.any (·.size.height = 200)) := by decide
    have htree' : (⟨0, 0⟩ : TreeRef) = r.tree := Option.some.inj hlive
    rw [htree', htree, Option.any_some, hcommitted] at hlaid
    exact of_decide_eq_true hlaid
  rcases hsince with rfl | ⟨l, size', hl, rfl, hsince⟩
  · exact absurd (hsmall.symm.trans hlarge) (by decide)
  · exact ⟨r, size, as, bs, cs, l, size', hacts, hlarge, hl, hsmall, hsince⟩

end TwoCalls

end Session

end Recycler

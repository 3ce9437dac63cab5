import Recycler.Proofs.Session.Sound

/-!
# Late work

Work that is under way when a holder is released goes on, and may come to its end long after. Three
things keep it from touching the holder: the trees that were there are none of the holder's any
more (`Store.Parted`), and neither a request between its two steps nor a measure listener gets
anywhere with a handle of an earlier generation (`Store.Stale`).
-/

namespace Recycler

/-- What a frame of a request or of a layout is at work on, whichever step it has come to. -/
inductive Work
  | factory (factory : Factory) (handle : WeakHandle)
  | claim (call : Call) (item : Shared Descriptor) (component : Component) (handle : WeakHandle)
      (listener : Option MeasureListener)
  | layout (layout : Layout) (sequel : Sequel)
  | confirm (request : Request)

def Frame.work? : Frame → Option Work
  | .factory f handle => some (.factory f handle)
  | .claimTree call item component handle listener =>
    some (.claim call item component handle listener)
  | .layout l sequel _ => some (.layout l sequel)
  | .confirm r => some (.confirm r)
  | _ => none

/-- The first frame that is at some work. -/
def Work.frame : Work → Frame
  | .factory f handle => .factory f handle
  | .claim call item component handle listener => .claimTree call item component handle listener
  | .layout l sequel => .layout l sequel .enter
  | .confirm r => .confirm r

/-- What a frame needs to be sound depends only on its work. -/
theorem Frame.sound_iff_of_work? {f : Frame} {w : Work} (hw : f.work? = some w) (s : Store) :
    f.Sound s ↔ w.frame.Sound s := by
  cases f with
  | factory f handle =>
      cases hw
      rfl
  | claimTree call item component handle listener =>
      cases hw
      rfl
  | layout l sequel stage =>
      cases hw
      cases sequel <;> rfl
  | confirm r =>
      cases hw
      rfl
  | _ => cases hw

/-- A store that comes after a release of a holder, as far as this holder goes. -/
structure Store.ReleasedSince (s₀ s : Store) (h : Nat) : Prop where
  parted : ∀ t, s₀.Built t → s.Parted h t
  stale : ∀ w, s₀.Issued w → w.holder = h → s.Stale w
  listens : ∀ t x y l w, s₀.tree? t = some x → s.tree? t = some y → y.config.listener = some l →
    l.handle = some w → s₀.Listens w

namespace Store

variable {s₀ s : Store} {h : Nat}

theorem releasedSince_acts (s₀ : Store) (h : Nat) (as : List Act) :
    ReleasedSince s₀ (s₀.acts (.reset h :: as)) h := by
  constructor
  · intro t ht
    refine acts_induction (P := (·.Parted h t)) (fun s a hp => hp.act a) ⟨ht.act s₀ _, ?_⟩ as
    simp [act, live?_reset]
  · rintro w hw rfl
    exact acts_induction (P := (·.Stale w)) (fun s a hw => hw.act a)
      (hw.stale_of_resets (a := .reset w.holder) (decide_eq_true rfl)) as
  · intro t x y l w hx hy hl hw
    obtain ⟨z, hz, hconfig⟩ := config_acts hx (.reset h :: as)
    obtain rfl := Option.some.inj (hz.symm.trans hy)
    exact ⟨t, x, l, hx, hconfig ▸ hl, hw⟩

end Store

namespace Session

/-- The work that is under way: on a thread, waiting in a queue, or any layout that somebody may
ask of a tree that is there, now or later. -/
inductive UnderWay (s : Session) : Work → Prop
  | frame {j : Nat} {f : Frame} {w : Work} (hf : f ∈ s.work j) (hw : f.work? = some w) :
      UnderWay s w
  | waiting {l : Layout} (hl : s.store.Waits l) : UnderWay s (.layout l .background)
  | tree {l : Layout} {sequel : Sequel} (hs : ∀ r, sequel ≠ .commit r)
      (hl : s.store.Built l.tree) : UnderWay s (.layout l sequel)

variable {s s₁ s₂ s₃ : Session} {i j h : Nat} {f g : Frame} {w : Work} {ms : List Moment}

theorem UnderWay.sound (hw : s.UnderWay w) (hs : s.Sound) : w.frame.Sound s.store := by
  cases hw with
  | frame hf hw => exact (Frame.sound_iff_of_work? hw s.store).1 (hs.frames _ _ hf)
  | waiting hl => exact hs.waiting _ hl
  | @tree l sequel hseq hl =>
      cases sequel with
      | commit r => exact absurd rfl (hseq r)
      | background => exact hl
      | reply => exact hl

/-! ## The steps of late work -/

theorem mem_listenerActs {l : Layout} {size : Size} {a : Store.Act}
    (ha : a ∈ s.listenerActs l size) : ∃ w, a = .writeHeight w size.height := by
  unfold listenerActs at ha
  split at ha
  · split at ha
    · exact ⟨_, List.mem_singleton.1 ha⟩
    · cases ha
  · cases ha

/-- A listener of a tree that was there at the release writes no height to the holder. -/
theorem holder_ne_of_mem_listenerActs {s₀ : Store} (hsince : s₀.ReleasedSince s.store h)
    (hlisteners : ∀ w, s₀.Listens w → s₀.Issued w) {l : Layout} (hl : s₀.Built l.tree)
    {size : Size} {a : Store.Act} (ha : a ∈ s.listenerActs l size) : a.subject? ≠ some h := by
  unfold listenerActs at ha
  split at ha
  · next w hw =>
      split at ha
      · next hres =>
          obtain rfl := List.mem_singleton.1 ha
          intro hwh
          obtain ⟨listener, hlistener, hhandle⟩ := Option.bind_eq_some_iff.1 hw
          obtain ⟨y, hy, hlistener⟩ := Option.bind_eq_some_iff.1 hlistener
          obtain ⟨x, hx⟩ := s₀.built_iff.1 hl
          have hhandle : listener.handle = some w := by
            split at hhandle
            · exact hhandle
            · cases hhandle
          have hissued := hlisteners w
            (hsince.listens l.tree x y listener w hx hy hlistener hhandle)
          have hstale := (hsince.stale w hissued (Option.some.inj hwh)).isOfGeneration
          rw [isOfGeneration_of_resolve? hres] at hstale
          cases hstale
      · cases ha
  · cases ha

/-- A request that was in its factory at the release ends without a trace. -/
theorem acts_claim_of_stale {call : Call} {item : Shared Descriptor} {component : Component}
    {handle : WeakHandle} {listener : Option MeasureListener} (hw : s.store.Stale handle)
    (hc : handle.holder = call.holder) :
    s.store.acts (s.claimActs call item component handle listener) = s.store := by
  have hclaim := hw.claimTree hc item component listener
  rw [claimActs, hclaim, Store.acts_cons, Store.acts_nil, Store.act, hclaim]

theorem isCurrent_of_parted {x : Holder} {r : Request} (hp : s.store.Parted h r.tree)
    (hx : s.store.holders[h]? = some x) : x.state.isCurrent r.item r.tree = false := by
  have hlive := hp.2
  rw [s.store.live?_eq hx] at hlive
  rw [Holder.State.isCurrent, decide_eq_false hlive, Bool.false_and]

theorem mem_claimActs {a : Store.Act} {call : Call} {item : Shared Descriptor}
    {component : Component} {handle : WeakHandle} {listener : Option MeasureListener}
    (ha : a ∈ s.claimActs call item component handle listener) :
    a = .claimTree call item component handle listener ∨ ∃ q l, a = .enqueue q l :=
  (List.mem_cons.1 ha).imp_right mem_tail_claimActs

/-- Late work leaves the holder as it is. -/
theorem holders_step_of_releasedSince {s₀ : Store} (hsince : s₀.ReleasedSince s.store h)
    (hlisteners : ∀ w, s₀.Listens w → s₀.Issued w) (hf : f.Sound s₀) (hw : f.work? = some w)
    {x : Holder} (hx : s.store.holders[h]? = some x) :
    (s.store.acts (s.frameActs i f)).holders[h]? = some x := by
  cases f with
  | factory => exact hx
  | claimTree call item component handle listener =>
      obtain ⟨hcall, hissued, -⟩ := hf
      by_cases hh : call.holder = h
      · have hstale := hsince.stale handle hissued (hcall.trans hh)
        rw [frameActs, acts_claim_of_stale hstale hcall]
        exact hx
      · refine s.store.holders_acts_of_ne hx (fun a ha => ?_) fun a ha t => ?_
        · rcases mem_claimActs ha with rfl | ⟨q, l, rfl⟩
          · exact fun hs => hh (Option.some.inj hs)
          · intro hs
            cases hs
        · rcases mem_claimActs ha with rfl | ⟨q, l, rfl⟩ <;> rfl
  | layout l sequel stage =>
      have hbuilt : s₀.Built l.tree := by
        cases sequel with
        | commit r => exact hf.1
        | background => exact hf
        | reply => exact hf
      cases stage with
      | enter => simpa [frameActs, Store.act] using hx
      | settle size => simpa [frameActs, Store.act, Store.settleLayout] using hx
      | notifyMeasured size ready =>
          have hacts : s.frameActs i (.layout l sequel (.notifyMeasured size ready)) =
            (s.push i [.layout l sequel (.notifyReady size ready)]).listenerActs l size := rfl
          rw [hacts]
          refine s.store.holders_acts_of_ne hx (fun a ha => ?_) fun a ha t => ?_
          · exact holder_ne_of_mem_listenerActs (s := s.push i _) hsince hlisteners hbuilt ha
          · obtain ⟨w, rfl⟩ := mem_listenerActs ha
            rfl
      | deliver outcome =>
          cases sequel with
          | commit r =>
              cases outcome with
              | error failure => exact hx
              | ok size =>
                  obtain ⟨-, rfl, -⟩ := hf
                  have hkept := s.store.holders_act (.commitLayout r size) hx
                  rw [Store.Act.onHolder, isCurrent_of_parted (hsince.parted _ hbuilt) hx] at hkept
                  simpa [frameActs] using hkept
          | _ => cases outcome <;> exact hx
      | _ => exact hx
  | confirm r =>
      have hkept := s.store.holders_act (.confirmLayout r) hx
      rw [Store.Act.onHolder, isCurrent_of_parted (hsince.parted _ hf.1) hx] at hkept
      simpa [frameActs] using hkept
  | _ => cases hw

/-! ## Late work after a release -/

/-- Whenever work that was under way at a release is carried on afterwards, the holder stays as it
is, and a request that had no tree yet builds none. -/
theorem Reachable.late_step_keeps (hr : s.Reachable) {name : String}
    (hrelease : s.top? j = some (.command (.onHolder name .release)))
    (hh : s.registers.handles.get? name = some h) (hw : s.UnderWay w)
    (hrun : s.follow? (.carry j :: ms) = some s₂) (hf : s₂.top? i = some f)
    (hfw : f.work? = some w) (hstep : s₂.advance? i = some s₃) :
    s₃.store.holders[h]? = s₂.store.holders[h]? ∧
      ∀ call item component handle listener, w = .claim call item component handle listener →
        call.holder = h → s₃.store = s₂.store := by
  have hs := hr.sound
  have hsound := (Frame.sound_iff_of_work? hfw s.store).2 (hw.sound hs)
  obtain ⟨s₁, hs₁, hrun'⟩ := follow?_cons_eq_some.1 hrun
  have hacts : s.acts j = [.reset h] := by
    rw [acts, hrelease]
    exact frameActs_release (s := s.off j) hh j
  have hsince : s.store.ReleasedSince s₂.store h := by
    rw [store_follow? hrun, runActs_cons hs₁, momentActs, hacts]
    exact Store.releasedSince_acts s.store h _
  have hlt : h < s₂.store.holders.length := by
    have hle := s.store.length_le_acts (s.runActs (.carry j :: ms))
    rw [← store_follow? hrun] at hle
    exact Nat.lt_of_lt_of_le (hs.handles h ⟨name, hh⟩) hle
  have hx := List.getElem?_eq_getElem hlt
  have hstore : s₃.store = s₂.store.acts ((s₂.off i).frameActs i f) := by
    rw [store_advance? hstep, acts, hf]
  constructor
  · rw [hstore, hx]
    exact holders_step_of_releasedSince (s := s₂.off i) hsince hs.listeners hsound hfw hx
  · rintro call item component handle listener rfl hcall
    cases f with
    | claimTree =>
        cases hfw
        obtain ⟨hhandle, hissued, -⟩ := hsound
        have hstale := hsince.stale handle hissued (hhandle.trans hcall)
        rw [hstore]
        exact acts_claim_of_stale (s := s₂.off i) hstale hhandle
    | _ => cases hfw

/-! ### A holder with a second life

The main thread releases a holder while it is laid out on another thread, and gives it an item and
a layout by a handle that is left. The first layout comes to its end only then.
-/

namespace SecondLife

def upToRelease : List Moment :=
  told (.component "c" "c" .byName) ++ told (.item "d" (.component "c") []) ++
    told (.engine "e" .standard {}) ++ told (.acquire "d" [] none "shared" (some "h")) ++
    told (.onHolder "h" (.clone "k")) ++
    told (.spawn (.layout default "e" "" "h" false) (some "j")) ++
    List.replicate 4 (.carry 1) ++ [.give mainThread (.onHolder "h" .release)]

def fromRelease : List Moment :=
  List.replicate 3 (.carry mainThread) ++ told (.onHolder "k" (.describe "d")) ++
    [.give mainThread (.layout default "e" "" "k" false)] ++
    List.replicate 10 (.carry mainThread) ++ List.replicate 4 (.carry 1)

def atRelease : Session :=
  ((ofProgram { steps := [], scripts := [] }).follow? upToRelease).get (by decide)

def beforeCommit : Session := (atRelease.follow? fromRelease).get (by decide)

def afterCommit : Session := (beforeCommit.advance? 1).get (by decide)

theorem reachable_atRelease : atRelease.Reachable := ⟨_, upToRelease, (Option.some_get _).symm⟩

theorem underWay_atRelease :
    atRelease.UnderWay (.layout ⟨⟨0, 0⟩, ⟨0, .byName, "c"⟩, default, none⟩ (.commit
      ⟨⟨0, 0, "", default, false⟩, ⟨0, { content := .component ⟨0, .byName, "c"⟩ }⟩,
        ⟨0, .byName, "c"⟩, ⟨0, 0⟩⟩)) :=
  .frame (j := 1) (f := .layout _ _ .measure) List.mem_cons_self rfl

/-- The layout for the first item leaves the holder's second one alone. -/
theorem commit_keeps :
    beforeCommit.store.holders[0]?.any (·.state.valid) ∧
      afterCommit.store.holders[0]? = beforeCommit.store.holders[0]? :=
  ⟨by decide, (reachable_atRelease.late_step_keeps (j := mainThread) rfl rfl
    underWay_atRelease (Option.some_get _).symm rfl rfl (Option.some_get _).symm).1⟩

end SecondLife

end Session

end Recycler

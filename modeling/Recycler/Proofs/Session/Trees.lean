import Recycler.Proofs.Session.Rest
import Recycler.Proofs.Session.Tracking
import Recycler.Proofs.Store.Parked

/-!
# The trees of a run

What runs do to the store begins with the empty one, so that what was said of histories holds of
every run: each tree is released once by the holder that it was built for, unless it is in use there
(`custody_of_run`), and each begins with what the last one left (`handover_of_run`).
-/

namespace Recycler.Session

open Store (Act)

variable {p : Program} {o s s' u : Session} {ms ns ks : List Moment} {m : Moment} {h j : Nat}
  {as bs : List Act} {a : Act} {config : Tree.Config} {t : TreeRef}

theorem store_of_run (hrun : (ofProgram p).follow? ms = some s) :
    s.store = ({} : Store).acts ((ofProgram p).runActs ms) := store_follow? hrun

/-! ## Releases under way -/

/-- A release has come from its first step on thread `j`, in the session `u`, and is to give the
holder back all along the run `ns` after it. -/
structure Releasing (o : Session) (ms : List Moment) (j h : Nat) (ks : List Moment) (u : Session)
    (ns : List Moment) : Prop where
  run : ms = ks ++ .carry j :: ns
  reached : o.follow? ks = some u
  begun : ∃ name, u.top? j = some (.command (.onHolder name .release)) ∧
    u.registers.handles.get? name = some h
  pending : ∀ ls v, ls <+: ns → u.follow? (.carry j :: ls) = some v → .giveBack h ∈ v.work j

/-- Every release that is under way has come from its first step. -/
def AllReleasing (o : Session) (ms : List Moment) (s : Session) : Prop :=
  ∀ j h, .giveBack h ∈ s.work j → ∃ ks u ns, Releasing o ms j h ks u ns

theorem Releasing.follow? (hg : Releasing o ms j h ks u ns) (hrun : o.follow? ms = some s) :
    u.follow? (.carry j :: ns) = some s := by
  rwa [hg.run, follow?_append, hg.reached, Option.bind_some] at hrun

theorem Releasing.concat (hg : Releasing o ms j h ks u ns) (hrun : o.follow? ms = some s)
    (hm : s.next? m = some s') (hmem : .giveBack h ∈ s'.work j) :
    Releasing o (ms ++ [m]) j h ks u (ns ++ [m]) where
  run := by rw [hg.run, List.append_assoc, List.cons_append]
  reached := hg.reached
  begun := hg.begun
  pending ls v hls hv := by
    rcases List.prefix_concat_iff.1 hls with rfl | hls
    · have hend := follow?_concat (hg.follow? hrun) hm
      obtain rfl := Option.some.inj (hend.symm.trans hv)
      exact hmem
    · exact hg.pending ls v hls hv

theorem AllReleasing.next? (hall : AllReleasing o ms s) (hrun : o.follow? ms = some s)
    (hm : s.next? m = some s') : AllReleasing o (ms ++ [m]) s' := by
  intro j h hg
  have hold (hmem : .giveBack h ∈ s.work j) :
      ∃ ks u ns, Releasing o (ms ++ [m]) j h ks u ns := by
    obtain ⟨ks, u, ns, hbefore⟩ := hall j h hmem
    exact ⟨ks, u, ns ++ [m], hbefore.concat hrun hm hg⟩
  cases happens_of_next? hm with
  | give c hi =>
      rcases mem_work_push hg with hmem | hmem
      · simp at hmem
      · exact hold hmem
  | look k => exact hold ((s.like_view? k).work j ▸ hg)
  | @carry i f _ hf ht =>
      rcases ht.mem_work hg with hmem | hmem | ⟨rfl, fs, hfs, hmem, -⟩
      · exact hold ((work_off_suffix hf j).subset hmem)
      · cases hmem
      · obtain ⟨name, hn, rfl⟩ := of_giveBack_ensues hfs hmem
        refine ⟨ms, s, [], rfl, hrun, ⟨name, hf, hn⟩, fun ls v hls hv => ?_⟩
        obtain rfl := List.prefix_nil.1 hls
        obtain rfl := Option.some.inj ((follow?_singleton hm).symm.trans hv)
        exact hg

theorem allReleasing_of_run (hrun : (ofProgram p).follow? ms = some s) :
    AllReleasing (ofProgram p) ms s := by
  refine follow?_history_induction (fun j h hg => ?_)
    (fun ks t m t' hks hm hall => hall.next? hks hm) hrun
  rw [work_ofProgram] at hg
  cases hg

theorem Releasing.runActs_concat (hg : Releasing o ms j h ks u ns)
    (hrun : o.follow? ms = some s) :
    o.runActs (ks ++ [.carry j]) = o.runActs ks ++ [.reset h] := by
  obtain ⟨name, hf, hn⟩ := hg.begun
  obtain ⟨v, hv, -⟩ := follow?_cons_eq_some.1 (hg.follow? hrun)
  rw [Session.runActs_concat hg.reached hv, momentActs_carry hf,
    frameActs_release (s := u.off j) hn]

theorem Releasing.isReleasing (hg : Releasing o ms j h ks u ns) {ls : List Moment} {v : Session}
    (hls : ls <+: ns) (hv : u.follow? (.carry j :: ls) = some v) : v.isReleasing :=
  isReleasing_iff.2 ⟨j, h, hg.pending ls v hls hv⟩

/-- While a release is under way in an unbroken run, nothing is built. -/
theorem not_builds_of_not_interrupts (hm : s.interrupts m = false) (hrel : s.isReleasing)
    (ha : a ∈ s.momentActs m) : a.builds = false := by
  obtain ⟨i, f, rfl, hf⟩ := exists_of_mem_momentActs ha
  have hgive := isGiveBack_of_not_interrupts hm hf hrel
  rw [momentActs_carry hf] at ha
  cases f with
  | giveBack k =>
      obtain rfl := List.mem_singleton.1 ha
      rfl
  | _ => cases hgive

theorem not_builds_of_unbroken (hu : s.unbroken ms) (hrun : s.follow? ms = some s')
    (hrel : ∀ ls m ns v, ms = ls ++ m :: ns → s.follow? ls = some v → v.isReleasing) :
    ∀ a ∈ s.runActs ms, a.builds = false := by
  induction ms generalizing s with
  | nil => exact fun a ha => nomatch ha
  | cons m ms ih =>
      obtain ⟨t, ht, hrun⟩ := follow?_cons_eq_some.1 hrun
      obtain ⟨hm, hu⟩ := (unbroken_cons ht).1 hu
      intro a ha
      rw [runActs_cons ht] at ha
      rcases List.mem_append.1 ha with ha | ha
      · exact not_builds_of_not_interrupts hm (hrel [] m ms s rfl rfl) ha
      · refine ih hu hrun (fun ls n ns v hms hv => ?_) a ha
        exact hrel (m :: ls) n ns v (by rw [hms]; rfl) (follow?_cons_eq_some.2 ⟨t, ht, hv⟩)

/-! ## Custody -/

/-- What is left of the trees of a holder by the time that a release of it is at its end. -/
structure Discharged (o : Session) (ms : List Moment) (h : Nat) (ks : List Moment) (s : Session) :
    Prop where
  /-- The first step of the release, which ends the run `ks`, released what the holder had. -/
  freed : Store.builtFor h {} (o.runActs ks) = Store.freedBy h {} (o.runActs ks)
  gone : ∀ t ∈ Store.builtFor h {} (o.runActs ks), s.store.Discarded t
  /-- Nothing was built for the holder since then if nothing came in between. -/
  whole : o.unbroken ms → Store.builtFor h {} (o.runActs ms) = Store.builtFor h {} (o.runActs ks)

/-- In every run each tree is in the custody of the holder that it was built for. When a release
comes to its end, the trees that were built for the holder by the first step of the release are
released and in use nowhere. These are all its trees unless a layout built one in between. -/
theorem custody_of_run (hrun : (ofProgram p).follow? ms = some s) :
    Store.Custody ((ofProgram p).runActs ms) ∧
      ∀ j h s', s.top? j = some (.giveBack h) → s.next? (.carry j) = some s' →
        ∃ ks u ns, Releasing (ofProgram p) ms j h ks u ns ∧
          Discharged (ofProgram p) (ms ++ [.carry j]) h (ks ++ [.carry j]) s' := by
  refine ⟨Store.custody _, fun j h s' hf hnext => ?_⟩
  obtain ⟨ks, u, ns, hg⟩ := allReleasing_of_run hrun j h (mem_work_of_top? hf rfl)
  have hfreed : Store.builtFor h {} ((ofProgram p).runActs (ks ++ [.carry j])) =
      Store.freedBy h {} ((ofProgram p).runActs (ks ++ [.carry j])) := by
    rw [hg.runActs_concat hrun]
    exact (Store.custody _).reset _ [] h rfl
  have hlater : ms = ks ++ [.carry j] ++ ns := by
    rw [hg.run, List.append_assoc, List.singleton_append]
  obtain ⟨v, hv, -⟩ := follow?_cons_eq_some.1 (hg.follow? hrun)
  have hfirst : (ofProgram p).follow? (ks ++ [.carry j]) = some v :=
    follow?_concat hg.reached hv
  refine ⟨ks, u, ns, hg, hfreed, fun t ht => ?_, fun hu => ?_⟩
  · rw [store_of_run (follow?_concat hrun hnext), hlater, List.append_assoc,
      runActs_append hfirst]
    refine Store.discarded_of_mem_freedBy (h := h) ?_
    rw [Store.freedBy_append, ← hfreed]
    exact List.mem_append_left _ ht
  · rw [hlater, List.append_assoc] at hu ⊢
    have hrest := follow?_concat (hlater ▸ hrun) hnext
    rw [List.append_assoc, follow?_append, hfirst, Option.bind_some] at hrest
    have hidle : ∀ a ∈ v.runActs (ns ++ [.carry j]), a.builds = false := by
      refine not_builds_of_unbroken ((unbroken_append hfirst).1 hu).2 hrest
        fun ls m ms' w hls hw => hg.isReleasing ?_ (follow?_cons_eq_some.2 ⟨v, hv, hw⟩)
      have hpre : ls <+: ns ++ [.carry j] := ⟨m :: ms', hls.symm⟩
      rcases List.prefix_concat_iff.1 hpre with rfl | hpre
      · simp at hls
      · exact hpre
    rw [runActs_append hfirst, Store.builtFor_append, Store.builtFor_of_not_builds hidle,
      List.append_nil]

/-- In every run a tree is built from what the last tree of its holder left, and goes on by
itself. -/
theorem handover_of_run (hrun : (ofProgram p).follow? ms = some s)
    (hacts : (ofProgram p).runActs ms = as ++ a :: bs)
    (ha : a.supplies? (({} : Store).acts as) h = some (config, t)) :
    Store.Handover as a bs s.store h config t := by
  rw [store_of_run hrun, hacts]
  exact Store.handover ha

/-! ### One tree after the other

A holder is laid out, evicted and laid out again, so that it gets a second tree. The first one was
updated and mounted before.
-/

namespace SecondTree

def start : Session := ofProgram { steps := [], scripts := [] }

def upToEviction : List Moment :=
  told (.component "c" "c" .byName) ++ told (.item "d" (.component "c") []) ++
    told (.engine "e" .standard {}) ++ told (.acquire "d" [] none "shared" (some "h")) ++
    [.give mainThread (.layout default "e" "" "h" false)] ++
    List.replicate 10 (.carry mainThread) ++
    told (.onTree "e" (some 0) (.update "n" (.bool true))) ++ told (.onTree "e" (some 0) .mount)

/-- Up to the step that builds the second tree. -/
def fromEviction : List Moment :=
  told (.onHolder "h" .evict) ++ [.give mainThread (.layout default "e" "" "h" false)] ++
    List.replicate 2 (.carry mainThread)

def fromTree : List Moment :=
  List.replicate 8 (.carry mainThread) ++
    told (.onTree "e" (some 0) (.update "n" (.bool false))) ++
    [.give mainThread (.onHolder "h" .release), .carry mainThread]

def atEviction : Session := (start.follow? upToEviction).get (by decide)

def atTree : Session := (atEviction.follow? fromEviction).get (by decide)

def atRelease : Session := (atTree.follow? fromTree).get (by decide)

def building : Act :=
  .claimTree ⟨0, 0, "", default, false⟩ ⟨0, { content := .component ⟨0, .byName, "c"⟩ }⟩
    ⟨0, .byName, "c"⟩ ⟨0, 0⟩ none

theorem run_atEviction : start.follow? upToEviction = some atEviction := (Option.some_get _).symm

theorem run_atTree : start.follow? (upToEviction ++ fromEviction) = some atTree :=
  follow?_trans run_atEviction (Option.some_get _).symm

theorem run_atRelease :
    start.follow? (upToEviction ++ fromEviction ++ fromTree) = some atRelease :=
  follow?_trans run_atTree (Option.some_get _).symm

def atEnd : Session := (atRelease.next? (.carry mainThread)).get (by decide)

/-- The holder has two trees by the time that it is given back, and both are gone. -/
theorem both_discarded :
    atEnd.store.Discarded ⟨0, 0⟩ ∧ atEnd.store.Discarded ⟨0, 1⟩ := by
  obtain ⟨ks, -, -, -, hend⟩ :=
    (custody_of_run run_atRelease).2 mainThread 0 atEnd rfl (Option.some_get _).symm
  have hgone := hend.gone
  rw [← hend.whole (by decide)] at hgone
  exact ⟨hgone _ (by decide), hgone _ (by decide)⟩

theorem acts_atTree : start.runActs (upToEviction ++ fromEviction) =
    start.runActs upToEviction ++ [.evict 0, .openRequest ⟨0, 0, "", default, false⟩] := by
  rw [runActs_append run_atEviction]
  rfl

theorem acts_atRelease : ∃ bs, start.runActs (upToEviction ++ fromEviction ++ fromTree) =
    start.runActs (upToEviction ++ fromEviction) ++ building :: bs := by
  have hfirst : (atTree.runActs fromTree).head? = some building := rfl
  obtain ⟨bs, hbs⟩ := List.head?_eq_some_iff.1 hfirst
  exact ⟨bs, by rw [runActs_append run_atTree, hbs]⟩

/-- The second tree begins with the state that the first one had, and as one that was mounted. -/
theorem second_continues : ∃ config,
    building.supplies? (({} : Store).acts (start.runActs (upToEviction ++ fromEviction))) 0 =
        some (config, ⟨0, 1⟩) ∧
      config.snapshot = some (Snapshot.empty.put "n" (.bool true)) ∧ config.wasMounted = true := by
  obtain ⟨bs, hbs⟩ := acts_atRelease
  have hbuilt : ((building.supplies? (({} : Store).acts
      (start.runActs (upToEviction ++ fromEviction))) 0).map (·.2)) = some ⟨0, 1⟩ := by decide
  obtain ⟨⟨config, t⟩, ha, rfl⟩ := Option.map_eq_some_iff.1 hbuilt
  have hover := handover_of_run run_atRelease hbs ha
  have hl : (({} : Store).acts (start.runActs upToEviction)).live? 0 = some ⟨0, 0⟩ := by decide
  refine ⟨config, ha, ?_, ?_⟩
  · exact ((hover.snapshot _).1 (.evicted acts_atTree hl (by decide) (by decide))).trans
      (by decide)
  · exact (hover.mounted true).1 (.evicted acts_atTree hl rfl (by decide) (by decide))

end SecondTree

/-! ### Trees that a release does not get at

The first step of a release is done on a thread of its own. Before the second one, the main thread
lays the holder out again by a handle that is left, and drops the handle.
-/

namespace Meanwhile

def start : Session := ofProgram { steps := [], scripts := [] }

def upToAcquire : List Moment :=
  told (.component "c" "c" .byName) ++ told (.item "d" (.component "c") []) ++
    told (.engine "e" .standard {}) ++ told (.acquire "d" [] none "shared" (some "h"))

def layingOut (handle : String) : List Moment :=
  .give mainThread (.layout default "e" "" handle false) :: List.replicate 10 (.carry mainThread)

def upToRelease : List Moment :=
  upToAcquire ++ told (.onHolder "h" (.clone "k")) ++
    told (.spawn (.onHolder "h" .release) (some "j")) ++ [.carry 1]

def inBetween : List Moment :=
  told (.onHolder "k" (.describe "d")) ++ layingOut "k" ++ told (.dropHandle "k")

def atGiveBack : Session := (start.follow? (upToRelease ++ inBetween)).get (by decide)

def atEnd : Session := (atGiveBack.next? (.carry 1)).get (by decide)

theorem run_atGiveBack : start.follow? (upToRelease ++ inBetween) = some atGiveBack :=
  (Option.some_get _).symm

theorem run_atEnd : start.follow? (upToRelease ++ inBetween ++ [.carry 1]) = some atEnd :=
  follow?_concat run_atGiveBack (Option.some_get _).symm

/-- The tree of a holder is released by somebody who was given it. -/
def atRelease : Session :=
  (start.follow? (upToAcquire ++ layingOut "h" ++ told (.onTree "e" (some 0) .release))).get
    (by decide)

/-- A tree may be in use that was built in between, or that somebody else released. -/
theorem live_after_release :
    (atGiveBack.Reachable ∧ atGiveBack.top? 1 = some (.giveBack 0) ∧
        atGiveBack.next? (.carry 1) = some atEnd ∧ atEnd.store.live? 0 = some ⟨0, 0⟩ ∧
        (atEnd.store.tree? ⟨0, 0⟩).any fun tree => !tree.released) ∧
      atRelease.Reachable ∧ atRelease.store.live? 0 = some ⟨0, 0⟩ ∧
        (atRelease.store.tree? ⟨0, 0⟩).any (·.released) :=
  ⟨⟨⟨_, _, run_atGiveBack⟩, rfl, (Option.some_get _).symm, by decide, by decide⟩,
    ⟨_, _, (Option.some_get _).symm⟩, by decide, by decide⟩

end Meanwhile

end Recycler.Session

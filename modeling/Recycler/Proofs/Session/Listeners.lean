import Recycler.Proofs.Session.Capture
import Recycler.Proofs.Session.Trees
import Recycler.Proofs.Store.Listener

/-!
# The listeners of trees in use

Whatever a run does is founded (`founded_of_run`): what is done to a holder is done through a handle
to it, so it is there. A request that goes on with its second step brings the listener that the
factory of its holder made in between (`prepared_of_run`), as long as the holder was not released.
The factory is still the one of the holder, unless an item acquired it in the meantime, which is
possible only in the middle of a release. Hence in every run each tree in use has just the listeners
of its holder, and none from before a release (`tuned_of_run`).
-/

namespace Recycler.Session

open Store (Act Founded Prepared Tuned)

variable {program : Program} {s : Session} {ms : List Moment} {as bs : List Act}

theorem founded_of_run (hrun : (ofProgram program).follow? ms = some s) :
    Founded {} ((ofProgram program).runActs ms) := by
  refine Store.founded_of_forall fun as a bs has => ?_
  obtain ⟨ks, i, f, ns, u, cs, ds, rfl, hks, hf, hacts, rfl⟩ := exists_of_runActs_eq hrun has
  have hr : u.Reachable := ⟨program, ks, hks⟩
  have hmem : a ∈ (u.off i).frameActs i f := by
    rw [hacts]
    exact List.mem_append_cons_self
  rw [Store.acts_append, ← store_of_run hks]
  constructor
  · rintro h l rfl
    have hholds : u.Holds h := licensed hmem
    exact Nat.lt_of_lt_of_le (hr.sound.handles h hholds) (u.store.length_le_acts cs)
  · intro h ha
    cases a with
    | acquire p item policy factory =>
        obtain ⟨rfl, -⟩ := eq_nil_of_acquire hacts
        exact hr.sound.idle p h (.of_offered? _ (of_decide_eq_true ha))
    | _ => cases ha

theorem prepared_of_run (hrun : (ofProgram program).follow? ms = some s) :
    Prepared ((ofProgram program).unbroken ms) ((ofProgram program).runActs ms) := by
  constructor
  · intro hu as a bs h has ha
    obtain ⟨ks, i, f, ns, u, cs, ds, rfl, hks, hf, hacts, rfl⟩ := exists_of_runActs_eq hrun has
    have ho : u.Orderly := ⟨program, ks, ((unbroken_append hks).1 hu).1, hks⟩
    cases a with
    | acquire p item policy factory =>
        obtain ⟨rfl, -⟩ := eq_nil_of_acquire hacts
        rw [List.append_nil, ← store_of_run hks] at ha ⊢
        obtain ⟨g, hx⟩ := (ho.rested.idle p h (.of_offered? _ (of_decide_eq_true ha))).fresh
        exact u.store.live?_eq hx
    | _ => cases ha
  · intro as a bs h config t has ha
    obtain ⟨call, item, component, handle, listener, y, engine, rfl, rfl, hy, -, hg, -, -, rfl,
      -⟩ := Store.exists_of_supplies? ha
    obtain ⟨ks, i, f, ns, u, cs, ds, rfl, hks, hf, hacts, rfl⟩ := exists_of_runActs_eq hrun has
    obtain ⟨rfl, rfl⟩ := eq_nil_of_claimTree hacts
    rw [List.append_nil] at hy ⊢
    rw [← store_of_run hks] at hy
    obtain ⟨v, x, ls, ho⟩ := allOpened_of_run hks _ _ _ _ _ _ (mem_work_of_top? hf rfl)
    obtain ⟨js, rfl, hjs⟩ := ho.run
    refine ⟨(ofProgram program).runActs js, v.runActs (.carry i :: ls), x, runActs_append hjs _,
      ho.not_resets hks hy hg, store_of_run hjs ▸ ho.holder, ?_, fun hu => ?_⟩
    · rw [← ho.handle]
      exact ho.listener
    · rw [← store_of_run hjs]
      exact ho.unoffered hks ((unbroken_append hks).1 hu).1

/-- In every run the trees in use have the listeners of their holders: for new layouts the one that
was set last since the holder was released, and for measuring the one that the factory of the item
made with a handle of the holder's generation. No tree has one from before a release. The factory is
the one of the item that asked for the tree. In an unbroken run this is the item that has the
holder. -/
theorem tuned_of_run (hrun : (ofProgram program).follow? ms = some s) :
    Tuned ((ofProgram program).unbroken ms) ((ofProgram program).runActs ms) s.store := by
  rw [store_of_run hrun]
  exact Store.tuned (founded_of_run hrun) (prepared_of_run hrun)

/-! ### Two items, one after the other

The listener for new layouts is set before the first item is laid out and replaced afterwards. Then
the holder is released and laid out again for another item, with another factory.
-/

namespace Retuned

def start : Session := ofProgram { steps := [], scripts := [] }

def making (name : String) : Factory := ⟨some name, false, none, none⟩

def telling (name : String) : ReadyListener := ⟨some name, none⟩

def firstItem : List Moment :=
  told (.component "c" "c" .byName) ++ told (.item "d" (.component "c") []) ++
    told (.engine "e" .standard {}) ++
    told (.acquire "d" [] (some (making "first")) "shared" (some "h")) ++
    told (.onHolder "h" (.setReadyListener (some (telling "early")))) ++
    [.give mainThread (.layout default "e" "" "h" false)] ++
    List.replicate 11 (.carry mainThread) ++
    told (.onHolder "h" (.setReadyListener (some (telling "late")))) ++
    [.give mainThread (.onHolder "h" .release)]

/-- Up to the step that builds the tree of the second item. -/
def fromRelease : List Moment :=
  List.replicate 3 (.carry mainThread) ++
    told (.acquire "d" [] (some (making "second")) "shared" (some "h")) ++
    [.give mainThread (.layout default "e" "" "h" false)] ++ List.replicate 2 (.carry mainThread)

def fromClaim : List Moment := List.replicate 9 (.carry mainThread)

def atRelease : Session := (start.follow? firstItem).get (by decide)

def atClaim : Session := (atRelease.follow? fromRelease).get (by decide)

def atEnd : Session := (atClaim.follow? fromClaim).get (by decide)

theorem run_atRelease : start.follow? firstItem = some atRelease := (Option.some_get _).symm

theorem run_atClaim : start.follow? (firstItem ++ fromRelease) = some atClaim :=
  follow?_trans run_atRelease (Option.some_get _).symm

theorem run_atEnd : start.follow? (firstItem ++ fromRelease ++ fromClaim) = some atEnd :=
  follow?_trans run_atClaim (Option.some_get _).symm

def claiming : Act :=
  .claimTree ⟨0, 0, "", default, false⟩ ⟨0, { content := .component ⟨0, .byName, "c"⟩ }⟩
    ⟨0, .byName, "c"⟩ ⟨0, 1⟩ (some ⟨making "second", some ⟨0, 1⟩⟩)

theorem acts_atClaim : start.runActs (firstItem ++ fromRelease) =
    start.runActs firstItem ++ .reset 0 :: (atRelease.runActs fromRelease).tail := by
  rw [runActs_append run_atRelease]
  rfl

theorem acts_atEnd : start.runActs (firstItem ++ fromRelease ++ fromClaim) =
    start.runActs firstItem ++ .reset 0 :: ((atRelease.runActs fromRelease).tail ++
      claiming :: (atClaim.runActs fromClaim).tail) := by
  rw [runActs_append run_atClaim, acts_atClaim, List.append_assoc, List.cons_append]
  rfl

theorem listeners_of_each_item :
    (∃ y, atRelease.store.tree? ⟨0, 0⟩ = some y ∧ y.readyListener = some (telling "late") ∧
        y.config.listener = some ⟨making "first", some ⟨0, 0⟩⟩) ∧
      ∃ y, atEnd.store.tree? ⟨0, 1⟩ = some y ∧ y.readyListener = none ∧
        y.config.listener = some ⟨making "second", some ⟨0, 1⟩⟩ := by
  constructor
  · obtain ⟨x, y, hx, hy, hset, hready⟩ :=
      (tuned_of_run run_atRelease).ready 0 ⟨0, 0⟩ (by decide) (by decide)
    obtain ⟨bs, cs, x', y', -, -, -, hx', hy', hmeasured, hsame⟩ :=
      (tuned_of_run run_atRelease).measured 0 ⟨0, 0⟩ (by decide)
    obtain rfl := Option.some.inj (hx.symm.trans hx')
    obtain rfl := Option.some.inj (hy.symm.trans hy')
    have hgeneration : atRelease.store.holders[0]?.map (·.downgrade 0) = some ⟨0, 0⟩ := by decide
    rw [hx, Option.map_some, Option.some.injEq] at hgeneration
    refine ⟨y, hy, hready.trans (hset.trans (by decide)), ?_⟩
    rw [hmeasured, hsame (by decide), hgeneration]
    decide
  · have hbuilt : (claiming.supplies? (({} : Store).acts (start.runActs firstItem ++
        .reset 0 :: (atRelease.runActs fromRelease).tail)) 0).map (·.2) = some ⟨0, 1⟩ := by decide
    obtain ⟨⟨config, t⟩, ha, rfl⟩ := Option.map_eq_some_iff.1 hbuilt
    obtain ⟨es, fs, x, y, -, -, hx, hy, hmeasured, hsame, hready⟩ :=
      (tuned_of_run run_atEnd).renewed _ _ _ _ 0 config ⟨0, 1⟩ acts_atEnd ha
    have hgeneration : (({} : Store).acts (start.runActs firstItem ++
        .reset 0 :: (atRelease.runActs fromRelease).tail)).holders[0]?.map (·.downgrade 0) =
          some ⟨0, 1⟩ := by decide
    rw [hx, Option.map_some, Option.some.injEq] at hgeneration
    refine ⟨y, hy, (hready (by decide)).trans (by decide), ?_⟩
    rw [hmeasured, hsame (by decide), hgeneration]
    decide

end Retuned

/-! ### A tree that was built before its item came

An item with a factory acquires the holder that was laid out in the middle of its release. The tree
in use was asked for before, when the holder had no factory.
-/

namespace Meanwhile

def equipped : Session :=
  (atEnd.follow? (told (.acquire "d" [] (some (Retuned.making "f")) "shared" (some "l")))).get
    (by decide)

theorem no_listener_for_factory :
    equipped.Reachable ∧ equipped.registers.handles.get? "l" = some 0 ∧
      equipped.store.holders[0]?.any (·.state.factory = some (Retuned.making "f")) ∧
      equipped.store.live? 0 = some ⟨0, 0⟩ ∧
      (equipped.store.tree? ⟨0, 0⟩).any (·.config.listener.isNone) :=
  ⟨⟨_, _, follow?_trans run_atEnd (Option.some_get _).symm⟩, by decide, by decide, by decide,
    by decide⟩

end Meanwhile

end Recycler.Session

import Recycler.Proofs.Session.Late
import Recycler.Proofs.Session.Reuse
import Recycler.Proofs.Session.Settle
import Recycler.Proofs.Session.Window

/-!
# Superseded layouts

A layout is superseded when the holder has another descriptor or another tree than the layout was
asked for. What it does to holders from then on is told by `Reachable.superseded_step`. The measure
listener of the tree may still write the height, through a handle that is good until the next
release. And the layout is committed if by its end it is one of the holder again, because the holder
kept the tree and was given the descriptor back, be it by an item that acquired it while its release
was not at an end.
-/

namespace Recycler

/-- The layout that some work is about. -/
def Work.layout? : Work → Option Layout
  | .layout l _ => some l
  | .confirm r => some r.layout
  | _ => none

/-- The request whose outcome some work hands to the holder in the end. -/
def Work.request? : Work → Option Request
  | .layout _ (.commit r) => some r
  | .confirm r => some r
  | _ => none

/-- After the acts a request is about what its holder has because the holder was given the
descriptor of the request last, and had the tree all along. -/
structure Store.Reinstates (r : Request) (s : Store) (as : List Store.Act) : Prop where
  live : s.live? r.call.holder = some r.tree
  kept : ¬ Store.Loses r.call.holder r.tree s as
  given : ∃ item, Store.lastGiven? r.call.holder s as = some item ∧ item.same r.item

namespace Session

open Store (Unoffered Loses lastGiven? Reinstates)

variable {s s' t u : Session} {i j h : Nat} {f g : Frame} {l : Layout} {r : Request}
  {sequel : Sequel} {ms : List Moment} {w : Work} {tree : TreeRef}

/-! ## What the measure listener writes -/

/-- The handle through which the measure listener of a tree writes the height, if it resolves. -/
def writer? (s : Session) (t : TreeRef) : Option WeakHandle :=
  (((s.store.tree? t).bind (·.config.listener)).bind fun listener =>
    if listener.factory.writesHeight then listener.handle else none).filter (s.resolve? · |>.isSome)

theorem listenerActs_eq (s : Session) (l : Layout) (size : Size) :
    s.listenerActs l size = ((s.writer? l.tree).map (.writeHeight · size.height)).toList := by
  unfold listenerActs writer?
  split
  · next w hw =>
      rw [hw, Option.filter_some]
      split <;> rfl
  · next hnone =>
      rw [hnone]
      rfl

theorem writer?_push (hf : s.top? i = some f) (hh : g.holder? = f.holder?) (t : TreeRef) :
    ((s.off i).push i [g]).writer? t = s.writer? t := by
  unfold writer?
  congr 1
  funext w
  rw [resolve?_push hf hh]

/-- A handle that a listener writes through is of a holder that was not released since. -/
theorem isOfGeneration_of_writer? {v : WeakHandle} (hv : s.writer? tree = some v) :
    s.store.isOfGeneration v :=
  isOfGeneration_of_resolve? (Option.filter_eq_some_iff.1 hv).2

/-! ## Steps -/

/-- What some work does to holders in one step: nothing, or the listener of the tree writes the
height, or the outcome is handed to the holder of the request. -/
theorem holders_of_work (hl : w.layout?.isSome) (hf : s.top? j = some f) (hfw : f.work? = some w)
    (hn : s.next? (.carry j) = some s') :
    s'.store.holders = s.store.holders ∨
    (∃ l sequel size ready v, f = .layout l sequel (.notifyMeasured size ready) ∧
      s.writer? l.tree = some v ∧ s'.store = s.store.writeHeight v size.height) ∨
    ∃ r, w.request? = some r ∧ ((∃ l size, f = .layout l (.commit r) (.deliver (.ok size)) ∧
        s'.store = s.store.commitLayout r size) ∨
      f = .confirm r ∧ s'.store = s.store.confirmLayout r) := by
  have hstore := store_next? hn
  rw [momentActs_carry hf] at hstore
  cases f with
  | layout l sequel stage =>
      cases stage with
      | notifyMeasured size ready =>
          have hacts : (s.off j).frameActs j (.layout l sequel (.notifyMeasured size ready)) =
              ((s.off j).push j [.layout l sequel (.notifyReady size ready)]).listenerActs l size :=
            rfl
          rw [hacts, listenerActs_eq, writer?_push hf (by cases sequel <;> rfl)] at hstore
          cases hv : s.writer? l.tree with
          | none => exact .inl (by rw [hstore, hv]; rfl)
          | some v =>
              exact .inr (.inl ⟨l, sequel, size, ready, v, rfl, hv, by rw [hstore, hv]; rfl⟩)
      | deliver outcome =>
          cases sequel with
          | commit r =>
              cases outcome with
              | ok size =>
                  cases hfw
                  exact .inr (.inr ⟨r, rfl, .inl ⟨l, size, rfl, hstore⟩⟩)
              | error failure => exact .inl (by rw [hstore]; rfl)
          | _ => cases outcome <;> exact .inl (by rw [hstore]; rfl)
      | enter => exact .inl (by rw [hstore]; simp [frameActs, Store.act])
      | settle size => exact .inl (by rw [hstore]; simp [frameActs, Store.act, Store.settleLayout])
      | _ => exact .inl (by rw [hstore]; rfl)
  | confirm r =>
      cases hfw
      exact .inr (.inr ⟨r, rfl, .inr ⟨rfl, hstore⟩⟩)
  | factory => cases hfw; cases hl
  | claimTree => cases hfw; cases hl
  | _ => cases hfw

/-! ## Runs -/

/-- In an unbroken run a holder that has a tree and keeps it is not acquired by an item. -/
theorem Orderly.unoffered_of_not_loses (ho : u.Orderly) (hrun : u.follow? ms = some s)
    (hu : u.unbroken ms) (hlive : u.store.live? h = some tree)
    (hkept : ¬ Loses h tree u.store (u.runActs ms)) :
    Unoffered h u.store (u.runActs ms) := by
  induction ms generalizing u with
  | nil => trivial
  | cons m ms ih =>
      obtain ⟨t, ht, hrun⟩ := follow?_cons_eq_some.1 hrun
      obtain ⟨hm, hu⟩ := (unbroken_cons ht).1 hu
      rw [runActs_cons ht, Store.loses_append, ← store_next? ht] at hkept
      rw [runActs_cons ht, Store.unoffered_append, ← store_next? ht]
      refine ⟨unoffered_of_not_idles (fun p hi => ?_) m, ?_⟩
      · obtain ⟨g, hx⟩ := (ho.rested.idle p h hi).fresh
        rw [Store.live?_eq _ hx] at hlive
        cases hlive
      · have hlive' := (Store.live?_acts_of_not_loses hlive fun hl => hkept (.inl hl)).1
        rw [← store_next? ht] at hlive'
        exact ih (ho.next? hm ht) hrun hu hlive' fun hl => hkept (.inr hl)

/-- A request that was superseded is about what its holder has again only if the holder had the tree
all along and was given the descriptor back. -/
theorem Reachable.reinstates_of_isCurrent (hu : u.Reachable) (hbuilt : u.store.Built r.tree)
    (hsup : u.store.isCurrent r = false) (hrun : u.follow? ms = some s)
    (hc : s.store.isCurrent r) : u.store.Reinstates r (u.runActs ms) := by
  obtain ⟨hlive, y, item, hy, hitem, hsame⟩ := Store.live?_of_isCurrent hc
  rw [store_follow? hrun] at hlive hy
  have hbefore : u.store.live? r.call.holder = some r.tree := by
    false_or_by_contra
    next hne =>
      exact (Store.acts_induction (P := (·.Parted r.call.holder r.tree)) (fun s a hp => hp.act a)
        ⟨hbuilt, hne⟩ (u.runActs ms)).2 hlive
  have hkept : ¬ Loses r.call.holder r.tree u.store (u.runActs ms) :=
    fun hloses => Store.live?_acts_of_loses hu.sound.owned hloses hlive
  refine ⟨hbefore, hkept, ?_⟩
  obtain ⟨x, hx, htree⟩ := u.store.exists_of_live? hbefore
  obtain ⟨z, hz, hlast⟩ := Store.item_acts hx (Store.live?_acts_of_not_loses hbefore hkept).2
  obtain rfl := Option.some.inj (hz.symm.trans hy)
  rw [hitem] at hlast
  cases hd : lastGiven? r.call.holder u.store (u.runActs ms) with
  | some item' =>
      rw [hd, Option.some_or] at hlast
      obtain rfl := Option.some.inj hlast
      exact ⟨_, rfl, hsame⟩
  | none =>
      -- the holder had this descriptor before, so that the request was not superseded
      rw [hd, Option.none_or] at hlast
      have hcurrent : u.store.isCurrent r := by
        rw [Store.isCurrent_eq _ hx]
        exact Holder.State.isCurrent_iff.2 ⟨htree, item, hlast.symm, hsame⟩
      exact absurd hcurrent (by rw [hsup]; exact Bool.false_ne_true)

/-- What a layout does to holders after a time at which its request was superseded. The measure
listener may write the height, through a handle that resolves, hence to a holder that was not
released since the handle was made. The outcome may be handed to the holder, if the holder had the
tree all along and was given the descriptor back, and in an unbroken run not by an item that
acquired the holder. There is nothing else, and a layout without a request, such as one from a
queue, does no more than the former. -/
theorem Reachable.superseded_step (hu : u.Reachable) (hw : u.UnderWay w) (hl : w.layout?.isSome)
    (hsup : ∀ r, w.request? = some r → u.store.isCurrent r = false)
    (hrun : u.follow? ms = some s) (hf : s.top? j = some f) (hfw : f.work? = some w)
    (hn : s.next? (.carry j) = some s') :
    s'.store.holders = s.store.holders ∨
    (∃ l sequel size ready v, f = .layout l sequel (.notifyMeasured size ready) ∧
      s.writer? l.tree = some v ∧
      s'.store = s.store.modifyState v.holder ({ · with height := some size.height })) ∨
    ∃ r, w.request? = some r ∧ u.store.Reinstates r (u.runActs ms) ∧
      (u.Orderly → u.unbroken ms → Unoffered r.call.holder u.store (u.runActs ms)) ∧
      ((∃ l size, f = .layout l (.commit r) (.deliver (.ok size)) ∧
          s'.store = s.store.modifyState r.call.holder
            ({ · with valid := true, height := some size.height })) ∨
        f = .confirm r ∧
          s'.store = s.store.modifyState r.call.holder ({ · with valid := true })) := by
  rcases holders_of_work hl hf hfw hn with hsame | ⟨l, sequel, size, ready, v, rfl, hv, hstore⟩ |
    ⟨r, hr, hend⟩
  · exact .inl hsame
  · rw [Store.writeHeight, if_pos (isOfGeneration_of_writer? hv)] at hstore
    exact .inr (.inl ⟨l, sequel, size, ready, v, rfl, hv, hstore⟩)
  · have hbuilt : u.store.Built r.tree := by
      have hsound := hw.sound hu.sound
      cases w with
      | layout l sequel =>
          cases sequel with
          | commit r =>
              obtain rfl := Option.some.inj hr
              obtain ⟨hbuilt, rfl, -⟩ := hsound
              exact hbuilt
          | _ => cases hr
      | confirm r =>
          obtain rfl := Option.some.inj hr
          exact hsound.1
      | _ => cases hr
    cases hc : s.store.isCurrent r with
    | false =>
        refine .inl ?_
        rcases hend with ⟨l, size, -, hstore⟩ | ⟨-, hstore⟩
        · rw [hstore, Store.commitLayout, hc, if_neg Bool.false_ne_true]
        · rw [hstore, Store.confirmLayout, hc, if_neg Bool.false_ne_true]
    | true =>
        have hre := hu.reinstates_of_isCurrent hbuilt (hsup r hr) hrun hc
        refine .inr (.inr ⟨r, hr, hre, fun ho hunbroken =>
          ho.unoffered_of_not_loses hrun hunbroken hre.live hre.kept, ?_⟩)
        rcases hend with ⟨l, size, hf, hstore⟩ | ⟨hf, hstore⟩
        · rw [Store.commitLayout, if_pos hc] at hstore
          exact .inl ⟨l, size, hf, hstore⟩
        · rw [Store.confirmLayout, if_pos hc] at hstore
          exact .inr ⟨hf, hstore⟩

/-! ### A layout overtaken by another descriptor

While a layout is made on another thread the main thread gives the holder another descriptor, and
the one it had once the measure listener was told.
-/

namespace Overtaken

def upToSettle : List Moment :=
  told (.component "c" "c" .byName) ++ told (.item "d" (.component "c") []) ++
    told (.item "other" (.component "c") []) ++ told (.engine "e" .standard {}) ++
    told (.acquire "d" [] (some ⟨none, true, none, none⟩) "shared" (some "h")) ++
    told (.spawn (.layout default "e" "" "h" false) (some "j")) ++ List.replicate 5 (.carry 1) ++
    told (.onHolder "h" (.describe "other")) ++ [.carry 1]

def upToCommit : List Moment := told (.onHolder "h" (.describe "d")) ++ [.carry 1]

def atSettle : Session :=
  ((ofProgram { steps := [], scripts := [] }).follow? upToSettle).get (by decide)

def afterListener : Session := (atSettle.follow? [.carry 1, .carry 1]).get (by decide)

def beforeCommit : Session := (afterListener.follow? upToCommit).get (by decide)

def afterCommit : Session := (beforeCommit.next? (.carry 1)).get (by decide)

def asked : Request :=
  ⟨⟨0, 0, "", default, false⟩, ⟨0, { content := .component ⟨0, .byName, "c"⟩ }⟩,
    ⟨0, .byName, "c"⟩, ⟨0, 0⟩⟩

theorem reachable_atSettle : atSettle.Reachable := ⟨_, upToSettle, (Option.some_get _).symm⟩

/-- The layout is superseded when it is measured. Its listener sets the height all the same, and in
the end it makes the holder valid. -/
theorem written_and_committed :
    atSettle.Reachable ∧ (∃ size, atSettle.top? 1 =
        some (.layout asked.layout (.commit asked) (.settle size))) ∧
      atSettle.store.isCurrent asked = false ∧
      afterListener.store.isCurrent asked = false ∧
      (atSettle.store.holders[0]?.map (·.state.height)) = some none ∧
      (afterListener.store.holders[0]?.map (·.state.height)) = some (some 48) ∧
      (∃ size, beforeCommit.top? 1 =
        some (.layout asked.layout (.commit asked) (.deliver (.ok size)))) ∧
      (beforeCommit.store.holders[0]?.map (·.state.valid)) = some false ∧
      (afterCommit.store.holders[0]?.map (·.state.valid)) = some true :=
  ⟨reachable_atSettle, ⟨_, rfl⟩, by decide, by decide, by decide, by decide, ⟨_, rfl⟩, by decide,
    by decide⟩

/-- The holder is valid in the end because it was given the descriptor back, and not by an item. -/
theorem reinstated :
    atSettle.store.Reinstates asked (atSettle.runActs ([.carry 1, .carry 1] ++ upToCommit)) ∧
      Unoffered 0 atSettle.store (atSettle.runActs ([.carry 1, .carry 1] ++ upToCommit)) := by
  have hrun : atSettle.follow? ([.carry 1, .carry 1] ++ upToCommit) = some beforeCommit :=
    follow?_trans (Option.some_get _).symm (Option.some_get _).symm
  have hstep : beforeCommit.next? (.carry 1) = some afterCommit := (Option.some_get _).symm
  obtain ⟨size, hf⟩ : ∃ size, beforeCommit.top? 1 =
      some (.layout asked.layout (.commit asked) (.deliver (.ok size))) := ⟨_, rfl⟩
  have hw : atSettle.UnderWay (.layout asked.layout (.commit asked)) :=
    .frame (j := 1) (f := .layout _ _ (.settle _)) List.mem_cons_self rfl
  rcases reachable_atSettle.superseded_step hw rfl (fun r hr => by
      obtain rfl := Option.some.inj hr
      decide) hrun hf rfl hstep with
    hsame | ⟨l, sequel, size, ready, v, hlayout, -⟩ | ⟨r, hr, hre, hun, -⟩
  · have hvalid := congrArg (fun hs : List Holder => hs.map (·.state.valid)) hsame
    exact absurd hvalid (by decide)
  · cases hlayout
  · obtain rfl := Option.some.inj hr
    exact ⟨hre, hun ⟨_, upToSettle, by decide, (Option.some_get _).symm⟩ (by decide)⟩

end Overtaken

end Session

end Recycler

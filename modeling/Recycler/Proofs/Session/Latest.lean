import Recycler.Proofs.Session.Trees
import Recycler.Proofs.Store.Latest

/-!
# The latest request and the latest layout

What a holder says of the latest request is told by the history of the run (`recorded_of_run`): the
constraints are those of the call that was begun last, and the layout of the item is done if the
layout that was settled on the tree in use last was for these constraints. Calls begin in one order
and are settled in another, and some are never settled, so that the two need not belong to the same
call.
-/

namespace Recycler.Session

open Store (Act LatestRequest LatestLayout lastCommitted?)

variable {p : Program} {o s s' u : Session} {ms : List Moment} {m : Moment} {i h : Nat} {f : Frame}
  {a : Act} {as bs : List Act} {call : Call} {l : Layout} {size : Size} {t : TreeRef} {x : Holder}
  {sequel : Sequel} {stage : Stage}

/-- A request is the first thing that is done in the first step of a call. -/
theorem eq_nil_of_openRequest (has : s.frameActs i f = as ++ .openRequest call :: bs) :
    as = [] ∧ f = .openRequest call := by
  have hmem : .openRequest call ∈ s.frameActs i f := has ▸ List.mem_append_cons_self
  obtain rfl : f = .openRequest call := licensed hmem
  refine ⟨?_, rfl⟩
  cases as with
  | nil => rfl
  | cons b as =>
      have htail : (s.openingActs call).tail = as ++ .openRequest call :: bs :=
        congrArg List.tail has
      have hlater : .openRequest call ∈ (s.openingActs call).tail :=
        htail ▸ List.mem_append_cons_self
      rw [openingActs, List.tail_cons] at hlater
      split at hlater
      · obtain ⟨q, heq⟩ := mem_launchActs hlater
        cases heq
      · cases hlater

/-- A layout is settled in a step that does nothing else. -/
theorem eq_nil_of_settleLayout (has : s.frameActs i f = as ++ .settleLayout l size :: bs) :
    as = [] ∧ bs = [] ∧ ∃ sequel, f = .layout l sequel (.settle size) := by
  have hmem : .settleLayout l size ∈ s.frameActs i f := has ▸ List.mem_append_cons_self
  obtain ⟨sequel, rfl⟩ := licensed hmem
  have hone : as ++ .settleLayout l size :: bs = [.settleLayout l size] := has.symm
  rw [List.append_eq_singleton_iff] at hone
  rcases hone with ⟨rfl, hone⟩ | ⟨-, hnil⟩
  · exact ⟨rfl, (List.cons.inj hone).2, sequel, rfl⟩
  · cases hnil

/-- A layout is settled when a thread comes to this step of the layout. -/
theorem exists_of_settleLayout (hrun : o.follow? ms = some s)
    (heq : o.runActs ms = as ++ .settleLayout l size :: bs) :
    ∃ ks i ns u sequel, ms = ks ++ .carry i :: ns ∧ o.follow? ks = some u ∧ as = o.runActs ks ∧
      u.top? i = some (.layout l sequel (.settle size)) := by
  obtain ⟨ks, i, f, ns, u, cs, ds, hms, hks, hf, hacts, has⟩ := exists_of_runActs_eq hrun heq
  obtain ⟨rfl, -, sequel, rfl⟩ := eq_nil_of_settleLayout hacts
  exact ⟨ks, i, ns, u, sequel, hms, hks, has.trans (List.append_nil _), hf⟩

/-! ## The layout that a tree keeps -/

theorem built_of_layout (hs : s.Sound) (hf : s.top? i = some (.layout l sequel stage)) :
    s.store.Built l.tree := by
  have hsound := hs.top hf
  cases sequel with
  | commit r => exact hsound.1
  | background => exact hsound
  | reply => exact hsound

theorem built_of_settleLayout (hs : s.Sound) (ha : .settleLayout l size ∈ s.momentActs m) :
    s.store.Built l.tree := by
  obtain ⟨i, f, rfl, hf⟩ := exists_of_mem_momentActs ha
  rw [momentActs_carry hf] at ha
  obtain ⟨sequel, rfl⟩ := licensed ha
  exact built_of_layout hs hf

/-- In every run a tree keeps the layout that was settled on it last. -/
theorem committed_of_run (hrun : (ofProgram p).follow? ms = some s) (t : TreeRef) :
    (s.store.tree? t).bind (·.committed) = lastCommitted? t ((ofProgram p).runActs ms) := by
  refine follow?_history_induction (P := fun ms s => (s.store.tree? t).bind (·.committed) =
    lastCommitted? t ((ofProgram p).runActs ms)) rfl (fun ks u m u' hks hm hu => ?_) hrun
  rw [runActs_concat hks hm, Store.lastCommitted?_append, ← hu, store_next? hm]
  cases hbefore : u.store.tree? t with
  | some tree =>
      obtain ⟨tree', htree', hcommitted⟩ := Store.committed_acts hbefore (u.momentActs m)
      rw [htree', Option.bind_some, hcommitted]
      rfl
  | none =>
      -- nothing can be settled on a tree that is not there
      have hnone : ∀ a ∈ u.momentActs m, a.settles t = false := by
        intro a ha
        rw [← Bool.not_eq_true]
        intro hsettles
        cases a with
        | settleLayout l size =>
            have hbuilt := built_of_settleLayout (Reachable.sound ⟨p, ks, hks⟩) ha
            rw [of_decide_eq_true hsettles, Store.Built, hbefore] at hbuilt
            cases hbuilt
        | _ => cases hsettles
      rw [Store.committed_of_unbuilt hbefore hnone, Store.lastCommitted?_eq_none_iff.2 hnone]
      rfl

/-! ## What a holder says -/

/-- What a holder says of its latest request, in the session that a run leads to, is told by the
history of the run. -/
structure Recorded (o : Session) (ms : List Moment) (s : Session) (h : Nat) (x : Holder) :
    Prop where
  requested : ∀ bounds, x.state.requested = some bounds ↔
    ∃ call, LatestRequest h o.store (o.runActs ms) call ∧ call.bounds = bounds
  laidOut : s.store.isLaidOut h ↔ ∃ item, x.state.item = some item ∧
    (item.value.rendersView ∨ item.value.component?.isSome ∧
      ∃ t call l size, x.state.slot.tree? = some t ∧
        LatestRequest h o.store (o.runActs ms) call ∧
        LatestLayout t (o.runActs ms) l size ∧ l.bounds = call.bounds)
  /-- A request is started when a thread comes to the first step of a call. -/
  started : ∀ as call bs, o.runActs ms = as ++ .openRequest call :: bs →
    ∃ ks i ns u, ms = ks ++ .carry i :: ns ∧ o.follow? ks = some u ∧ as = o.runActs ks ∧
      u.top? i = some (.openRequest call)
  /-- A layout is settled when a thread comes to this step of the layout. -/
  settled : ∀ as l size bs, o.runActs ms = as ++ .settleLayout l size :: bs →
    ∃ ks i ns u sequel, ms = ks ++ .carry i :: ns ∧ o.follow? ks = some u ∧ as = o.runActs ks ∧
      u.top? i = some (.layout l sequel (.settle size))

theorem component?_isSome_iff (d : Descriptor) :
    d.component?.isSome ↔ d.rendersView = false := by
  unfold Descriptor.component? Descriptor.rendersView
  cases d.content <;> simp

theorem isLaidOutFor_iff {tree : Tree} {bounds : Bounds} :
    tree.isLaidOutFor bounds ↔ ∃ c, tree.committed = some c ∧ c.bounds = bounds := by
  unfold Tree.isLaidOutFor
  cases tree.committed <;> simp

theorem isLaidOut_iff {σ : Store} (hx : σ.holders[h]? = some x) :
    σ.isLaidOut h ↔ ∃ item, x.state.item = some item ∧
      (item.value.rendersView ∨ item.value.component?.isSome ∧
        ∃ t bounds c, x.state.slot.tree? = some t ∧ x.state.requested = some bounds ∧
          (σ.tree? t).bind (·.committed) = some c ∧ c.bounds = bounds) := by
  unfold Store.isLaidOut
  rw [hx]
  cases hitem : x.state.item with
  | none => simp [hitem]
  | some item =>
      simp only [hitem, component?_isSome_iff, Option.some.injEq, exists_eq_left']
      cases hview : item.value.rendersView with
      | true => simp
      | false =>
          rw [Bool.false_or]
          constructor
          · intro hl
            split at hl
            · next tree bounds htree hbounds =>
                obtain ⟨t, ht, htree⟩ := Option.bind_eq_some_iff.1 htree
                obtain ⟨c, hc, rfl⟩ := isLaidOutFor_iff.1 hl
                exact .inr ⟨rfl, t, c.bounds, c, ht, hbounds, by rw [htree]; exact hc, rfl⟩
            · cases hl
          · rintro (hview | ⟨-, t, bounds, c, ht, hbounds, hc, rfl⟩)
            · cases hview
            · obtain ⟨tree, htree, hc⟩ := Option.bind_eq_some_iff.1 hc
              rw [ht, Option.bind_some, htree, hbounds]
              exact isLaidOutFor_iff.2 ⟨c, hc, rfl⟩

/-- In every run a holder keeps the constraints of the call that was begun last while it had a
component to lay out, of those since its last release, and none if there was none. The layout of the
item is the one for the latest request if a view renders the item, or if the layout that was settled
last on the tree in use was for these constraints. -/
theorem recorded_of_run (hrun : (ofProgram p).follow? ms = some s)
    (hx : s.store.holders[h]? = some x) : Recorded (ofProgram p) ms s h x := by
  have hrequested (bounds : Bounds) : x.state.requested = some bounds ↔
      ∃ call, LatestRequest h {} ((ofProgram p).runActs ms) call ∧ call.bounds = bounds := by
    rw [store_of_run hrun] at hx
    exact Store.requested_iff_latestRequest rfl hx
  refine ⟨hrequested, ?_, fun as call bs heq => ?_,
    fun as l size bs heq => exists_of_settleLayout hrun heq⟩
  · rw [isLaidOut_iff hx]
    simp only [committed_of_run hrun, Store.lastCommitted?_eq_some_iff, hrequested]
    refine exists_congr fun item => and_congr_right fun _ => or_congr_right <|
      and_congr_right fun _ => ⟨?_, ?_⟩
    · rintro ⟨t, -, c, ht, ⟨call, hcall, hbounds⟩, ⟨l, hl, hlbounds⟩, rfl⟩
      exact ⟨t, call, l, c.size, ht, hcall, hl, hlbounds.trans hbounds.symm⟩
    · rintro ⟨t, call, l, size, ht, hcall, hl, hbounds⟩
      exact ⟨t, call.bounds, ⟨l.bounds, size⟩, ht, ⟨call, hcall, rfl⟩, ⟨l, hl, rfl⟩, hbounds⟩
  · obtain ⟨ks, i, f, ns, u, cs, ds, hms, hks, hf, hacts, has⟩ := exists_of_runActs_eq hrun heq
    obtain ⟨rfl, rfl⟩ := eq_nil_of_openRequest hacts
    exact ⟨ks, i, ns, u, hms, hks, has.trans (List.append_nil _), hf⟩

/-! ### A call that fails after one that did not

The engine reports a failure for the second layout, which was asked for with other constraints.
-/

namespace SecondFails

def small : Bounds := ⟨.exactly 100, .exactly 200⟩

def large : Bounds := ⟨.exactly 300, .exactly 400⟩

def start : Session := ofProgram { steps := [], scripts := [] }

def upToEnd : List Moment :=
  told (.component "c" "c" .byName) ++ told (.item "d" (.component "c") []) ++
    told (.engine "e" .standard {}) ++ told (.acquire "d" [] none "shared" (some "h")) ++
    [.give mainThread (.layout small "e" "" "h" false)] ++ List.replicate 10 (.carry mainThread) ++
    told (.onEngine "e" (.arm "broken")) ++
    [.give mainThread (.layout large "e" "" "h" false)] ++ List.replicate 4 (.carry mainThread)

def atEnd : Session := (start.follow? upToEnd).get (by decide)

theorem run_atEnd : start.follow? upToEnd = some atEnd := (Option.some_get _).symm

/-- The holder keeps the constraints of the call that failed, and its tree the layout of the
other. -/
theorem latest_failed :
    (∃ call, LatestRequest 0 {} (start.runActs upToEnd) call ∧ call.bounds = large) ∧
      ¬ ∃ call l size, LatestRequest 0 {} (start.runActs upToEnd) call ∧
        LatestLayout ⟨0, 0⟩ (start.runActs upToEnd) l size ∧ l.bounds = call.bounds := by
  have hx : atEnd.store.holders[0]? = some ((atEnd.store.holders[0]?).get (by decide)) :=
    (Option.some_get _).symm
  have hrecorded := recorded_of_run run_atEnd hx
  have hnot : atEnd.store.isLaidOut 0 = false := by decide
  refine ⟨(hrecorded.requested large).1 (by decide), ?_⟩
  rintro ⟨call, l, size, hcall, hl, hbounds⟩
  rw [← Bool.not_eq_true, hrecorded.laidOut] at hnot
  exact hnot ⟨_, rfl, .inr ⟨rfl, ⟨0, 0⟩, call, l, size, by decide, hcall, hl, hbounds⟩⟩

end SecondFails

end Recycler.Session

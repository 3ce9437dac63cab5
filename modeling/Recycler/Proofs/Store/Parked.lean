import Recycler.Proofs.Store.Supply

/-!
# What a tree leaves to the next one

When a tree is evicted, the state that it answers is parked with its holder, for the next tree to go
on from. `Ending` says by the history of a holder how its last tree ended and what there is of it
for the next one; `Recalls` says so for the question whether the tree had been mounted. The slot of
the holder, which is filled and emptied along the way, does not occur in either of them.

The state of a tree itself changes by the updates that are made to this very tree (`state_acts`).
-/

namespace Recycler.Store

/-- What a tree answers when it is asked for its state. -/
def answer? (s : Store) (t : TreeRef) : Option Snapshot :=
  match s.engines[t.engine]?, s.tree? t with
  | some engine, some tree => if engine.manner.keepsState then some tree.state else none
  | _, _ => none

/-- The state that is parked with a holder. -/
def parked? (s : Store) (h : Nat) : Option Snapshot :=
  s.holders[h]?.bind (·.state.slot.parked?)

/-- Whether the tree that was evicted from a holder last had been mounted, as the holder has it. -/
def wasMounted (s : Store) (h : Nat) : Bool := s.holders[h]?.any (·.state.mounted)

/-- Whether an act makes a holder without a tree lose its parked state for nothing: a release, a
clearing, or an attempt to build a tree that the engine refuses. -/
def Act.forgets (s : Store) (h : Nat) : Act → Bool
  | .reset k => k = h
  | .change k .clearParked => k = h
  | .claimTree call item component handle listener =>
    match (s.claimTree call item component handle listener).2 with
    | .refused _ => call.holder = h
    | _ => false
  | _ => false

def forgotten (h : Nat) (s : Store) : List Act → Bool
  | [] => false
  | a :: as => a.forgets s h || forgotten h (s.act a) as

/-- How the last tree of a holder ended, and what it left to the next one. -/
inductive Ending (h : Nat) (as : List Act) : Option Snapshot → Prop
  /-- There was none. -/
  | first (hb : builtFor h {} as = []) : Ending h as none
  /-- It was evicted, and what it answered is there still. -/
  | evicted {bs cs : List Act} {t : TreeRef} (has : as = bs ++ .evict h :: cs)
      (hl : (({} : Store).acts bs).live? h = some t)
      (hb : builtFor h ((({} : Store).acts bs).act (.evict h)) cs = [])
      (hf : forgotten h ((({} : Store).acts bs).act (.evict h)) cs = false) :
      Ending h as ((({} : Store).acts bs).answer? t)
  | forgotten {bs cs : List Act} {t : TreeRef} (has : as = bs ++ .evict h :: cs)
      (hl : (({} : Store).acts bs).live? h = some t)
      (hb : builtFor h ((({} : Store).acts bs).act (.evict h)) cs = [])
      (hf : forgotten h ((({} : Store).acts bs).act (.evict h)) cs = true) :
      Ending h as none
  /-- The holder was released since. -/
  | released {bs cs : List Act} (has : as = bs ++ .reset h :: cs)
      (hb : builtFor h ((({} : Store).acts bs).act (.reset h)) cs = []) : Ending h as none

/-- Whether the tree that was evicted from a holder last, since its last release, had been
mounted. -/
inductive Recalls (h : Nat) (as : List Act) : Bool → Prop
  | evicted {bs cs : List Act} {t : TreeRef} {tree : Tree} (has : as = bs ++ .evict h :: cs)
      (hl : (({} : Store).acts bs).live? h = some t)
      (ht : (({} : Store).acts bs).tree? t = some tree)
      (hf : freedBy h ((({} : Store).acts bs).act (.evict h)) cs = [])
      (hr : ∀ a ∈ cs, a.resets h = false) : Recalls h as tree.mounted
  | released {bs cs : List Act} (has : as = bs ++ .reset h :: cs)
      (hf : freedBy h ((({} : Store).acts bs).act (.reset h)) cs = [])
      (hr : ∀ a ∈ cs, a.resets h = false) : Recalls h as false
  | never (hf : freedBy h {} as = []) (hr : ∀ a ∈ as, a.resets h = false) : Recalls h as false

/-- The update that an act makes to the state of a tree. -/
def Act.updates? (t : TreeRef) : Act → Option (String × Value)
  | .changeTree u (.update key value) => if u = t then some (key, value) else none
  | _ => none

variable {s : Store} {a b : Act} {as bs cs ds : List Act} {h : Nat} {t : TreeRef} {x : Holder}
  {config : Tree.Config}

/-! ## The parked state -/

theorem parked?_eq (hx : s.holders[h]? = some x) : s.parked? h = x.state.slot.parked? := by
  rw [parked?, hx, Option.bind_some]

theorem wasMounted_eq (hx : s.holders[h]? = some x) : s.wasMounted h = x.state.mounted := by
  rw [wasMounted, hx, Option.any_some]

/-- A holder that an act adds has nothing parked. -/
theorem of_holder_added {y : Holder} (hx : s.holders[h]? = none)
    (hy : (s.act a).holders[h]? = some y) :
    y.state.slot.parked? = none ∧ y.state.mounted = false := by
  obtain ⟨p, item, policy, factory, -, -, -, rfl⟩ := s.of_getElem?_act hx hy
  exact ⟨rfl, rfl⟩

/-- An engine that is asked for a tree gets the parked state, be it to refuse the tree. -/
theorem parked?_claimTree {call : Call} {item : Shared Descriptor} {component : Component}
    {handle : WeakHandle} {listener : Option MeasureListener}
    (hx : s.holders[h]? = some x) (hl : x.state.slot.tree? = none) :
    ((Act.claimTree call item component handle listener).onHolder s h x).state.slot.parked? =
      if call.holder = h ∧
          (s.claimTree call item component handle listener).2.config?.isSome then none
      else x.state.slot.parked? := by
  rw [Act.onHolder]
  by_cases hk : call.holder = h
  · subst hk
    by_cases hv : ∃ engine, s.engines[call.engine]? = some engine ∧
        x.generation = handle.generation
    · obtain ⟨engine, he, hg⟩ := hv
      rw [if_pos ⟨rfl, hg, hl⟩, supplied, he, snd_claimTree_of_vacant hx he hg hl]
      cases hr : engine.refuses <;>
        simp [hr, Claim.config?, Holder.State.takeParked, Holder.State.adopt, Slot.parked?]
    · have hnone : (s.claimTree call item component handle listener).2.config?.isSome = false := by
        rw [Option.isSome_eq_false_iff, Option.isNone_iff_eq_none,
          Option.eq_none_iff_forall_not_mem]
        intro config hc
        obtain ⟨y, engine, hy, he, hg, -⟩ := exists_of_config?_claimTree hc
        obtain rfl := Option.some.inj (hx.symm.trans hy)
        exact hv ⟨engine, he, hg⟩
      simp only [hnone, Bool.false_eq_true, and_false, if_false]
      split
      · next hc =>
          unfold supplied
          split
          · rfl
          · next engine he => exact absurd ⟨engine, he, hc.2.1⟩ hv
      · rfl
  · rw [if_neg fun h => hk h.1, if_neg fun h => hk h.1]

theorem config?_isSome_iff {call : Call} {item : Shared Descriptor} {component : Component}
    {handle : WeakHandle} {listener : Option MeasureListener} :
    (call.holder = h ∧ (s.claimTree call item component handle listener).2.config?.isSome) ↔
      (Act.claimTree call item component handle listener).forgets s h ∨
        ((Act.claimTree call item component handle listener).supplies? s h).isSome := by
  rw [Act.forgets, Act.supplies?]
  cases (s.claimTree call item component handle listener).2 <;> by_cases hk : call.holder = h <;>
    simp [Claim.config?, hk]

/-- Without a tree, a holder keeps what is parked until it is forgotten or handed on. -/
theorem parked?_act (hl : s.live? h = none) :
    (s.act a).parked? h =
      if a.forgets s h ∨ (a.supplies? s h).isSome then none else s.parked? h := by
  cases hx : s.holders[h]? with
  | none =>
      have hnone : s.parked? h = none := by rw [parked?, hx, Option.bind_none]
      rw [hnone, ite_self, parked?]
      cases hy : (s.act a).holders[h]? with
      | none => rfl
      | some y => exact (of_holder_added hx hy).1
  | some x =>
      rw [s.live?_eq hx] at hl
      rw [parked?_eq (s.holders_act a hx), parked?_eq hx]
      cases a with
      | claimTree call item component handle listener =>
          rw [parked?_claimTree hx hl]
          simp only [config?_isSome_iff]
      | change k c =>
          by_cases hk : k = h
          · cases c with
            | clearParked =>
                cases hs : x.state.slot <;> simp_all [Act.onHolder, Act.forgets, Slot.parked?,
                  Slot.tree?, Holder.State.change, Holder.State.clearParked]
            | _ => simp [Act.onHolder, Act.forgets, Act.supplies?, hk, Holder.State.change,
                Holder.State.describe, Holder.State.invalidate]
          · cases c <;> simp [Act.onHolder, Act.forgets, Act.supplies?, hk]
      | reset k =>
          by_cases hk : k = h <;>
            simp [Act.onHolder, Act.forgets, Act.supplies?, hk, Holder.reset, Slot.parked?]
      | evict k =>
          by_cases hk : k = h <;>
            simp [Act.onHolder, Act.forgets, Act.supplies?, hk, evicted, hl,
              Holder.State.invalidate]
      | _ =>
          simp only [Act.onHolder, Act.forgets, Act.supplies?, Bool.false_eq_true,
            Option.isSome_none, or_self, if_false]
          try split
          all_goals rfl

theorem parked?_evict (hl : s.live? h = some t) : (s.act (.evict h)).parked? h = s.answer? t := by
  obtain ⟨x, hx, ht⟩ := s.exists_of_live? hl
  rw [parked?_eq (s.holders_act (.evict h) hx), Act.onHolder, if_pos rfl, evicted, ht, answer?]
  dsimp only
  cases s.engines[t.engine]? with
  | none => rfl
  | some engine =>
      cases s.tree? t with
      | none => rfl
      | some tree =>
          dsimp only
          cases engine.manner.keepsState <;> rfl

/-- What is parked with a holder at the end, if no tree is built in the meantime. -/
theorem parked?_acts (hl : s.live? h = none) (hb : builtFor h s as = []) :
    (s.acts as).live? h = none ∧
      (s.acts as).parked? h = if forgotten h s as then none else s.parked? h := by
  induction as generalizing s with
  | nil => exact ⟨hl, rfl⟩
  | cons a as ih =>
      obtain ⟨hnone, hlater⟩ := List.append_eq_nil_iff.1 hb
      have hsupply : a.supplies? s h = none := by
        cases hs : a.supplies? s h with
        | none => rfl
        | some supply =>
            rw [hs] at hnone
            cases hnone
      have hl' : (s.act a).live? h = none := by rw [live?_act_of_none hl, hsupply]; rfl
      obtain ⟨hend, hparked⟩ := ih hl' hlater
      refine ⟨hend, ?_⟩
      rw [acts_cons, hparked, parked?_act hl, hsupply, forgotten]
      cases a.forgets s h <;> cases forgotten h (s.act a) as <;> rfl

/-! ## Whether the last tree had been mounted -/

theorem wasMounted_act (hr : a.resets h = false) (hf : a.frees? s h = none) :
    (s.act a).wasMounted h = s.wasMounted h := by
  cases hx : s.holders[h]? with
  | none =>
      rw [wasMounted, wasMounted, hx, Option.any_none]
      cases hy : (s.act a).holders[h]? with
      | none => rfl
      | some y => exact (of_holder_added hx hy).2
  | some x =>
      rw [wasMounted_eq (s.holders_act a hx), wasMounted_eq hx]
      cases a with
      | reset k => rw [Act.onHolder, if_neg (of_decide_eq_false hr)]
      | evict k =>
          rw [Act.onHolder]
          split
          · next hk =>
              rw [Act.frees?, Act.vacates, if_pos (decide_eq_true hk), s.live?_eq hx] at hf
              rw [evicted, hf]
              rfl
          · rfl
      | change | claimTree =>
          rw [Act.onHolder]
          split <;> simp
      | _ =>
          simp only [Act.onHolder]
          try split
          all_goals rfl

theorem wasMounted_acts (hr : ∀ a ∈ as, a.resets h = false) (hf : freedBy h s as = []) :
    (s.acts as).wasMounted h = s.wasMounted h := by
  induction as generalizing s with
  | nil => rfl
  | cons a as ih =>
      obtain ⟨hnone, hlater⟩ := List.append_eq_nil_iff.1 hf
      rw [acts_cons, ih (fun b hb => hr b (List.mem_cons_of_mem _ hb)) hlater]
      exact wasMounted_act (hr a List.mem_cons_self) (by simpa using hnone)

theorem wasMounted_evict {tree : Tree} (hl : s.live? h = some t) (ht : s.tree? t = some tree) :
    (s.act (.evict h)).wasMounted h = tree.mounted := by
  obtain ⟨x, hx, hslot⟩ := s.exists_of_live? hl
  obtain ⟨engine, he, -⟩ := Option.bind_eq_some_iff.1 ht
  rw [wasMounted_eq (s.holders_act (.evict h) hx), Act.onHolder, if_pos rfl, evicted, hslot]
  simp [he, ht, Holder.State.park]

/-- Since a release nothing is parked, and nothing recalled. -/
theorem of_reset (s : Store) (h : Nat) :
    (s.act (.reset h)).live? h = none ∧ (s.act (.reset h)).parked? h = none ∧
      (s.act (.reset h)).wasMounted h = false := by
  refine ⟨s.live?_reset h, ?_⟩
  cases hx : s.holders[h]? with
  | none =>
      have hy : (s.act (.reset h)).holders[h]? = none :=
        s.getElem?_act_of_none (fun p item policy factory => Act.noConfusion) hx
      rw [parked?, wasMounted, hy]
      exact ⟨rfl, rfl⟩
  | some x =>
      have hy := s.holders_act (.reset h) hx
      rw [Act.onHolder, if_pos rfl] at hy
      rw [parked?_eq hy, wasMounted_eq hy]
      exact ⟨rfl, rfl⟩

/-! ## How the last tree ended -/

/-- A history since the last release of a holder, or the last eviction that took a tree from it. -/
theorem exists_last_end (s : Store) (as : List Act) (h : Nat) :
    (∃ bs cs t, as = bs ++ .evict h :: cs ∧ (s.acts bs).live? h = some t ∧
        freedBy h ((s.acts bs).act (.evict h)) cs = [] ∧ ∀ a ∈ cs, a.resets h = false) ∨
      (∃ bs cs, as = bs ++ .reset h :: cs ∧
        freedBy h ((s.acts bs).act (.reset h)) cs = [] ∧ ∀ a ∈ cs, a.resets h = false) ∨
      (freedBy h s as = [] ∧ ∀ a ∈ as, a.resets h = false) := by
  induction as generalizing s with
  | nil => exact .inr (.inr ⟨rfl, fun a ha => nomatch ha⟩)
  | cons a as ih =>
      rcases ih (s.act a) with ⟨bs, cs, t, rfl, hrest⟩ | ⟨bs, cs, rfl, hrest⟩ | ⟨hf, hr⟩
      · exact .inl ⟨a :: bs, cs, t, rfl, hrest⟩
      · exact .inr (.inl ⟨a :: bs, cs, rfl, hrest⟩)
      · cases hreset : a.resets h with
        | true =>
            obtain rfl := Act.eq_of_resets hreset
            exact .inr (.inl ⟨[], as, rfl, hf, hr⟩)
        | false =>
            cases hfree : a.frees? s h with
            | some t =>
                obtain ⟨hl, hv⟩ := live?_of_frees? hfree
                cases a with
                | evict k =>
                    obtain rfl := of_decide_eq_true hv
                    exact .inl ⟨[], as, t, rfl, hl, hf, hr⟩
                | reset k => exact absurd (hreset.symm.trans hv) Bool.false_ne_true
                | _ => cases hv
            | none =>
                refine .inr (.inr ⟨by rw [freedBy, hfree, hf]; rfl, fun b hb => ?_⟩)
                rcases List.mem_cons.1 hb with rfl | hb
                · exact hreset
                · exact hr b hb

/-- Without a tree at either end and without giving one up, a holder got none. -/
theorem builtFor_eq_nil (hl : s.live? h = none) (hend : (s.acts as).live? h = none)
    (hf : freedBy h s as = []) : builtFor h s as = [] := by
  have heq := builtFor_eq s as h
  rwa [hl, hend, hf] at heq

theorem live?_evict (s : Store) (h : Nat) : (s.act (.evict h)).live? h = none := by
  cases hl : s.live? h with
  | none => rw [live?_act_of_none hl]; rfl
  | some t => rw [s.live?_act_of_live _ hl, if_pos (by exact decide_eq_true rfl)]

theorem parked?_append (hnone : ((({} : Store).acts bs).act b).live? h = none)
    (hb : builtFor h ((({} : Store).acts bs).act b) cs = []) :
    (({} : Store).acts (bs ++ b :: cs)).parked? h =
      if forgotten h ((({} : Store).acts bs).act b) cs then none
      else ((({} : Store).acts bs).act b).parked? h := by
  rw [acts_append, acts_cons]
  exact (parked?_acts hnone hb).2

theorem parked?_of_ending {st : Option Snapshot} (he : Ending h as st) :
    (({} : Store).acts as).parked? h = st := by
  cases he with
  | first hb =>
      rw [(parked?_acts (live?_empty h) hb).2]
      exact ite_self _
  | evicted has hl hb hf =>
      rw [has, parked?_append (live?_evict _ h) hb, hf, if_neg Bool.false_ne_true,
        parked?_evict hl]
  | forgotten has hl hb hf => rw [has, parked?_append (live?_evict _ h) hb, hf, if_pos rfl]
  | released has hb =>
      rw [has, parked?_append (of_reset _ h).1 hb, (of_reset _ h).2.1, ite_self]

theorem exists_ending (hl : (({} : Store).acts as).live? h = none) : ∃ st, Ending h as st := by
  have hnobuild {bs cs : List Act} {b : Act} (has : as = bs ++ b :: cs)
      (hnone : ((({} : Store).acts bs).act b).live? h = none)
      (hf : freedBy h ((({} : Store).acts bs).act b) cs = []) :
      builtFor h ((({} : Store).acts bs).act b) cs = [] := by
    refine builtFor_eq_nil hnone ?_ hf
    rwa [has, acts_append, acts_cons] at hl
  rcases exists_last_end {} as h with
    ⟨bs, cs, t, has, hlive, hf, -⟩ | ⟨bs, cs, has, hf, -⟩ | ⟨hf, -⟩
  · have hb := hnobuild has (live?_evict _ h) hf
    cases hforgot : forgotten h ((({} : Store).acts bs).act (.evict h)) cs with
    | true => exact ⟨_, .forgotten has hlive hb hforgot⟩
    | false => exact ⟨_, .evicted has hlive hb hforgot⟩
  · exact ⟨_, .released has (hnobuild has (live?_reset _ h) hf)⟩
  · exact ⟨_, .first (builtFor_eq_nil (live?_empty h) hl hf)⟩

/-- What a holder without a tree has parked is what its last tree left. -/
theorem ending_iff {st : Option Snapshot} (hl : (({} : Store).acts as).live? h = none) :
    Ending h as st ↔ (({} : Store).acts as).parked? h = st := by
  constructor
  · exact parked?_of_ending
  · rintro rfl
    obtain ⟨st, he⟩ := exists_ending hl
    rwa [parked?_of_ending he]

theorem wasMounted_of_recalls {m : Bool} (he : Recalls h as m) :
    (({} : Store).acts as).wasMounted h = m := by
  cases he with
  | evicted has hl ht hf hr =>
      rw [has, acts_append, acts_cons, wasMounted_acts hr hf, wasMounted_evict hl ht]
  | released has hf hr =>
      rw [has, acts_append, acts_cons, wasMounted_acts hr hf, (of_reset _ h).2.2]
  | never hf hr => exact wasMounted_acts hr hf

theorem exists_recalls (as : List Act) (h : Nat) : ∃ m, Recalls h as m := by
  rcases exists_last_end {} as h with
    ⟨bs, cs, t, has, hl, hf, hr⟩ | ⟨bs, cs, has, hf, hr⟩ | ⟨hf, hr⟩
  · obtain ⟨tree, ht⟩ := (built_iff _).1 ((owned_acts bs).built h t hl)
    exact ⟨_, .evicted has hl ht hf hr⟩
  · exact ⟨_, .released has hf hr⟩
  · exact ⟨_, .never hf hr⟩

theorem recalls_iff {m : Bool} :
    Recalls h as m ↔ (({} : Store).acts as).wasMounted h = m := by
  constructor
  · exact wasMounted_of_recalls
  · rintro rfl
    obtain ⟨m, he⟩ := exists_recalls as h
    rwa [wasMounted_of_recalls he]

/-! ## The next tree -/

/-- What goes into a tree is what its holder has parked and recalls. -/
theorem config_of_supplies? (hs : a.supplies? s h = some (config, t)) :
    config.snapshot = s.parked? h ∧ config.wasMounted = s.wasMounted h := by
  obtain ⟨call, item, component, handle, listener, x, engine, rfl, rfl, hx, he, hg, ht, hr, rfl,
    -⟩ := exists_of_supplies? hs
  rw [parked?_eq hx, wasMounted_eq hx]
  exact ⟨rfl, rfl⟩

/-- What was parked goes to the first tree that is built afterwards. -/
theorem eq_of_first_build {supply supply' : Tree.Config × TreeRef}
    (heq : as ++ a :: bs = cs ++ b :: ds) (hs : a.supplies? (s.acts as) h = some supply)
    (hs' : b.supplies? (s.acts cs) h = some supply') (has : builtFor h s as = [])
    (hcs : builtFor h s cs = []) : as = cs := by
  have hnot {es es' fs : List Act} {c : Act} {supply : Tree.Config × TreeRef}
      (hc : c.supplies? (s.acts es) h = some supply) (hfs : fs = es ++ c :: es')
      (hnone : builtFor h s fs = []) : False := by
    rw [hfs, builtFor_append, builtFor, hc] at hnone
    simp at hnone
  rcases List.append_eq_append_iff.1 heq with ⟨es, rfl, he⟩ | ⟨es, rfl, he⟩
  · cases es with
    | nil => exact (List.append_nil _).symm
    | cons c es =>
        obtain ⟨rfl, -⟩ := List.cons.inj he
        exact (hnot hs rfl hcs).elim
  · cases es with
    | nil => exact List.append_nil _
    | cons c es =>
        obtain ⟨rfl, -⟩ := List.cons.inj he
        exact (hnot hs' rfl has).elim

/-! ## The state of a tree -/

theorem state_onTree (a : Act) (y : Tree) :
    (a.onTree s t y).state =
      ((a.updates? t).toList.foldl (fun st u => st.put u.1 u.2) y.state) := by
  cases a with
  | evict | reset | setReadyListener | reportWindow | settleLayout =>
      simp only [Act.onTree, Act.updates?]
      split <;> rfl
  | changeTree u c =>
      by_cases hu : u = t
      · cases c <;> simp [Act.onTree, Act.updates?, hu, Tree.change, Tree.release,
          Tree.reportWindow, Tree.setReadyListener, Tree.mount, Tree.update]
      · cases c <;> simp [Act.onTree, Act.updates?, hu]
  | _ => rfl

/-- The state of a tree comes of the updates that were made to it, and of nothing else. -/
theorem state_acts {y : Tree} (hy : s.tree? t = some y) (as : List Act) :
    ∃ z, (s.acts as).tree? t = some z ∧
      z.state = (as.filterMap (·.updates? t)).foldl (fun st u => st.put u.1 u.2) y.state := by
  induction as generalizing s y with
  | nil => exact ⟨y, hy, rfl⟩
  | cons a as ih =>
      obtain ⟨z, hz, hstate⟩ := ih (s.tree?_act a hy)
      refine ⟨z, hz, ?_⟩
      rw [hstate, state_onTree, List.filterMap_cons]
      cases a.updates? t <;> rfl

/-! ## From one tree to the next -/

/-- What goes into a tree that a holder gets after the acts `as`, by the act `a`, and how the trees
go on in the acts `bs` up to the store `u`. -/
structure Handover (as : List Act) (a : Act) (bs : List Act) (u : Store) (h : Nat)
    (config : Tree.Config) (t : TreeRef) : Prop where
  snapshot : ∀ st, Ending h as st ↔ config.snapshot = st
  mounted : ∀ m, Recalls h as m ↔ config.wasMounted = m
  /-- What a tree answered is handed on at most once. -/
  once : ∀ cs ds ds' b es supply, as = cs ++ .evict h :: ds →
    builtFor h ((({} : Store).acts cs).act (.evict h)) ds = [] →
      as ++ a :: bs = cs ++ .evict h :: (ds' ++ b :: es) →
        b.supplies? (({} : Store).acts (cs ++ .evict h :: ds')) h = some supply →
          builtFor h ((({} : Store).acts cs).act (.evict h)) ds' = [] →
            ds' = ds ∧ b = a ∧ supply = (config, t)
  /-- If the engine of the last tree hands out the state of its trees, the new tree begins with the
  state that the last one had when it was evicted. -/
  restored : ∀ cs ds t₀ old engine, as = cs ++ .evict h :: ds →
    (({} : Store).acts cs).live? h = some t₀ →
      builtFor h ((({} : Store).acts cs).act (.evict h)) ds = [] →
        forgotten h ((({} : Store).acts cs).act (.evict h)) ds = false →
          (({} : Store).acts cs).tree? t₀ = some old →
            (({} : Store).acts cs).engines[t₀.engine]? = some engine →
              engine.manner.keepsState → t₀ ≠ t ∧
                ∃ new, ((({} : Store).acts as).act a).tree? t = some new ∧ new.state = old.state
  /-- From then on, the state of each tree comes of the updates to this tree alone. -/
  apart : ∀ t' x, ((({} : Store).acts as).act a).tree? t' = some x → ∃ y, u.tree? t' = some y ∧
    y.state = (bs.filterMap (·.updates? t')).foldl (fun st v => st.put v.1 v.2) x.state

theorem answer?_eq {old : Tree} {engine : Engine} (ht : s.tree? t = some old)
    (he : s.engines[t.engine]? = some engine) (hk : engine.manner.keepsState) :
    s.answer? t = some old.state := by
  rw [answer?, he, ht]
  exact if_pos hk

theorem handover (ha : a.supplies? (({} : Store).acts as) h = some (config, t)) :
    Handover as a bs (({} : Store).acts (as ++ a :: bs)) h config t := by
  obtain ⟨hvacant, hnew, -⟩ := live?_of_supplies? ha
  obtain ⟨hsnapshot, hmounted⟩ := config_of_supplies? ha
  constructor
  · intro st
    rw [hsnapshot]
    exact ending_iff hvacant
  · intro m
    rw [hmounted]
    exact recalls_iff
  · rintro cs ds ds' b es supply rfl hds heq hb hds'
    rw [List.append_assoc, List.cons_append, List.append_cancel_left_eq, List.cons.injEq] at heq
    rw [acts_append, acts_cons] at ha hb
    obtain rfl := eq_of_first_build heq.2 ha hb hds hds'
    obtain ⟨rfl, -⟩ := List.cons.inj (List.append_cancel_left heq.2)
    exact ⟨rfl, rfl, Option.some.inj (hb.symm.trans ha)⟩
  · rintro cs ds t₀ old engine rfl hl hb hf ht he hk
    refine ⟨?_, ?_⟩
    · rintro rfl
      refine hnew ?_
      rw [acts_append]
      exact built_acts ((built_iff _).2 ⟨old, ht⟩) _
    · obtain ⟨new, hnewtree, -, hstate, -⟩ := tree?_of_supplies? ha
      refine ⟨new, hnewtree, ?_⟩
      rw [hstate, hsnapshot, parked?_of_ending (.evicted rfl hl hb hf), answer?_eq ht he hk]
      rfl
  · intro t' x hx
    rw [acts_append, acts_cons]
    exact state_acts hx bs

end Recycler.Store

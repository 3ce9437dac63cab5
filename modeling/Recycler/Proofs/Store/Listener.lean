import Recycler.Proofs.Store.History
import Recycler.Proofs.Store.Supply

/-!
# The listeners of a holder and of its trees

A holder keeps a listener for new layouts and the factory of its measure listeners. Both are a
matter of its history since the last release: `lastListener` is the listener that was set last, and
`lastFactory` the factory that its item came with.

While a tree is in use its listener for new layouts and the one of its holder change together. Its
measure listener was made by the factory that the holder had when the tree was asked for, which is
the one that it has still unless an item acquired it in between (`Tuned`). For this a holder must
exist when a listener is set for it (`Founded`), and a request must bring the listener that the
factory of its holder makes (`Prepared`). In a history of any acts whatever none of these need be
so.
-/

namespace Recycler.Store

def listener? (s : Store) (h : Nat) : Option ReadyListener :=
  s.holders[h]?.bind (·.state.readyListener)

def factory? (s : Store) (h : Nat) : Option Factory := s.holders[h]?.bind (·.state.factory)

/-- The listener for new layouts that a holder with the listener `l` has after an act. -/
def Act.tunes (h : Nat) (l : Option ReadyListener) : Act → Option ReadyListener
  | .setReadyListener k l' => if k = h then l' else l
  | .reset k => if k = h then none else l
  | _ => l

/-- The factory that a holder with the factory `f` has after an act. -/
def Act.equips (s : Store) (h : Nat) (f : Option Factory) : Act → Option Factory
  | .acquire p _ _ factory => if (s.takeHolder p).2.1 = h then factory else f
  | .reset k => if k = h then none else f
  | _ => f

def equipped (h : Nat) (f : Option Factory) (s : Store) : List Act → Option Factory
  | [] => f
  | a :: as => equipped h (a.equips s h f) (s.act a) as

/-- The listener for new layouts that was set last for a holder, if any was since the holder was
released. -/
def lastListener (h : Nat) (as : List Act) : Option ReadyListener := as.foldl (Act.tunes h) none

/-- The factory with which an item got a holder last, if any item did since the holder was
released. -/
def lastFactory (h : Nat) (s : Store) (as : List Act) : Option Factory := equipped h none s as

/-- Whether an act takes hold of the listener of a tree past the holder of the tree. -/
def Act.bypasses (t : TreeRef) : Act → Bool
  | .changeTree u .release => u = t
  | .changeTree u (.setReadyListener _) => u = t
  | _ => false

/-- The holders that an act is about are there. -/
structure Act.Founded (s : Store) (a : Act) : Prop where
  known : ∀ h l, a = .setReadyListener h l → h < s.holders.length
  offered : ∀ h, a.acquires s h → h < s.holders.length

def Founded (s : Store) : List Act → Prop
  | [] => True
  | a :: as => a.Founded s ∧ Founded (s.act a) as

/-- A request that builds a tree brings the listener that the factory of the holder made when the
request began. The holder was not released since then. In a `steady` history no item acquires a
holder that has a tree or is asked for one. -/
structure Prepared (steady : Prop) (as : List Act) : Prop where
  vacant : steady → ∀ bs b cs h, as = bs ++ b :: cs → b.acquires (({} : Store).acts bs) h →
    (({} : Store).acts bs).live? h = none
  measured : ∀ bs a cs h config t, as = bs ++ a :: cs →
    a.supplies? (({} : Store).acts bs) h = some (config, t) →
      ∃ ds es x, bs = ds ++ es ∧ (∀ b ∈ es, b.resets h = false) ∧
        (({} : Store).acts ds).holders[h]? = some x ∧
        config.listener = x.state.factory.map (⟨·, some (x.downgrade h)⟩) ∧
        (steady → Unoffered h (({} : Store).acts ds) es)

variable {s : Store} {a : Act} {as bs cs : List Act} {h : Nat} {t : TreeRef} {x : Holder}
  {y : Tree} {f : Option Factory} {config : Tree.Config}

theorem founded_append : Founded s (as ++ bs) ↔ Founded s as ∧ Founded (s.acts as) bs := by
  induction as generalizing s with
  | nil => exact (and_iff_right trivial).symm
  | cons a as ih => rw [List.cons_append, Founded, Founded, ih, and_assoc, acts_cons]

theorem founded_of_forall (hall : ∀ bs a cs, as = bs ++ a :: cs → a.Founded (s.acts bs)) :
    Founded s as := by
  induction as generalizing s with
  | nil => trivial
  | cons a as ih =>
      refine ⟨hall [] a as rfl, ih fun bs b cs has => ?_⟩
      exact hall (a :: bs) b cs (by rw [has]; rfl)

theorem equipped_append :
    equipped h f s (as ++ bs) = equipped h (equipped h f s as) (s.acts as) bs := by
  induction as generalizing s f with
  | nil => rfl
  | cons a as ih => rw [List.cons_append, equipped, equipped, ih, acts_cons]

/-! ## Holders -/

theorem listener?_eq (hx : s.holders[h]? = some x) : s.listener? h = x.state.readyListener := by
  rw [listener?, hx, Option.bind_some]

theorem factory?_eq (hx : s.holders[h]? = some x) : s.factory? h = x.state.factory := by
  rw [factory?, hx, Option.bind_some]

theorem listener?_eq_none (hx : s.holders[h]? = none) : s.listener? h = none := by
  rw [listener?, hx, Option.bind_none]

theorem factory?_eq_none (hx : s.holders[h]? = none) : s.factory? h = none := by
  rw [factory?, hx, Option.bind_none]

theorem readyListener_onHolder (a : Act) (h : Nat) (x : Holder) :
    (a.onHolder s h x).state.readyListener = a.tunes h x.state.readyListener := by
  cases a with
  | reset k =>
      simp only [Act.onHolder, Act.tunes]
      split <;> rfl
  | change | evict | claimTree =>
      simp only [Act.onHolder, Act.tunes]
      split <;> simp
  | _ =>
      simp only [Act.onHolder, Act.tunes]
      try split
      all_goals rfl

theorem factory_onHolder (hr : a.resets h = false) (ha : a.acquires s h = false) :
    (a.onHolder s h x).state.factory = x.state.factory := by
  cases a with
  | acquire p item policy factory => simp_all [Act.onHolder, Act.acquires]
  | reset k => rw [Act.onHolder, if_neg (of_decide_eq_false hr)]
  | change | evict | claimTree =>
      rw [Act.onHolder]
      split <;> simp
  | _ =>
      simp only [Act.onHolder]
      try split
      all_goals rfl

/-- A holder that is neither released nor acquired keeps its factory. -/
theorem factory_acts (hx : s.holders[h]? = some x) (hr : ∀ a ∈ as, a.resets h = false)
    (hu : Unoffered h s as) :
    ∃ y, (s.acts as).holders[h]? = some y ∧ y.state.factory = x.state.factory := by
  induction as generalizing s x with
  | nil => exact ⟨x, hx, rfl⟩
  | cons a as ih =>
      obtain ⟨y, hy, hfactory⟩ := ih (s.holders_act a hx)
        (fun b hb => hr b (List.mem_cons_of_mem _ hb)) hu.2
      exact ⟨y, hy, hfactory.trans (factory_onHolder (hr a List.mem_cons_self) hu.1)⟩

theorem listener?_act (ha : a.Founded s) : (s.act a).listener? h = a.tunes h (s.listener? h) := by
  cases hx : s.holders[h]? with
  | some x =>
      rw [listener?_eq hx, listener?_eq (s.holders_act a hx), readyListener_onHolder]
  | none =>
      have hsame : a.tunes h none = none := by
        cases a with
        | setReadyListener k l =>
            have hk := ha.known k l rfl
            rw [Act.tunes, if_neg]
            rintro rfl
            exact Nat.not_lt.2 (List.getElem?_eq_none_iff.1 hx) hk
        | reset k => exact ite_self _
        | _ => rfl
      rw [listener?_eq_none hx, hsame]
      cases hy : (s.act a).holders[h]? with
      | none => exact listener?_eq_none hy
      | some y =>
          obtain ⟨p, item, policy, factory, -, -, -, rfl⟩ := s.of_getElem?_act hx hy
          exact listener?_eq hy

theorem listener?_acts (hf : Founded s as) :
    (s.acts as).listener? h = as.foldl (Act.tunes h) (s.listener? h) := by
  induction as generalizing s with
  | nil => rfl
  | cons a as ih => rw [acts_cons, ih hf.2, listener?_act hf.1, List.foldl_cons]

theorem factory?_acquire (p : Nat) (item : Shared Descriptor) (policy : Policy)
    (factory : Option Factory) (ha : (Act.acquire p item policy factory).Founded s) :
    (s.act (.acquire p item policy factory)).factory? h =
      if (s.takeHolder p).2.1 = h then factory else s.factory? h := by
  rw [fst_snd_takeHolder]
  cases hx : s.holders[h]? with
  | some x =>
      rw [factory?_eq (s.holders_act _ hx), factory?_eq hx, Act.onHolder]
      cases hp : s.offered? p with
      | some k => by_cases hk : k = h <;> simp [hk, Holder.State.configure]
      | none => simp [Nat.ne_of_gt (List.getElem?_eq_some_iff.1 hx).1]
  | none =>
      have hnot : s.offered? p ≠ some h := by
        intro hp
        exact Nat.not_lt.2 (List.getElem?_eq_none_iff.1 hx) (ha.offered h (decide_eq_true hp))
      cases hy : (s.act (.acquire p item policy factory)).holders[h]? with
      | some y =>
          obtain ⟨_, _, _, _, heq, hp, rfl, rfl⟩ := s.of_getElem?_act hx hy
          cases heq
          rw [factory?_eq hy, hp, Option.getD_none, if_pos rfl]
          rfl
      | none =>
          rw [factory?_eq_none hx, factory?_eq_none hy, if_neg]
          intro hh
          cases hp : s.offered? p with
          | some k =>
              rw [hp] at hh
              exact hnot (hp.trans (congrArg some hh))
          | none =>
              rw [hp] at hh
              rw [List.getElem?_eq_none_iff, length_acquire, hp, ← hh] at hy
              exact Nat.not_succ_le_self _ hy

theorem factory?_act_of_kept (ha : ∀ p item policy factory, a ≠ .acquire p item policy factory)
    (hr : a.resets h = false) : (s.act a).factory? h = s.factory? h := by
  cases hx : s.holders[h]? with
  | some x =>
      rw [factory?_eq (s.holders_act a hx), factory?_eq hx,
        factory_onHolder hr (s.acquires_eq_false h ha)]
  | none => rw [factory?_eq_none hx, factory?_eq_none (s.getElem?_act_of_none ha hx)]

theorem factory?_reset (h : Nat) : (s.act (.reset h)).factory? h = none := by
  cases hx : s.holders[h]? with
  | some x =>
      rw [factory?_eq (s.holders_act _ hx), Act.onHolder, if_pos rfl]
      rfl
  | none =>
      exact factory?_eq_none
        (s.getElem?_act_of_none (fun p item policy factory => Act.noConfusion) hx)

theorem factory?_act (ha : a.Founded s) : (s.act a).factory? h = a.equips s h (s.factory? h) := by
  cases a with
  | acquire p item policy factory => exact factory?_acquire p item policy factory ha
  | reset k =>
      rw [Act.equips]
      split
      · next hk => rw [hk, factory?_reset]
      · next hk =>
          exact factory?_act_of_kept (fun p item policy factory => Act.noConfusion)
            (decide_eq_false hk)
  | _ => exact factory?_act_of_kept (fun p item policy factory => Act.noConfusion) rfl

theorem factory?_acts (hf : Founded s as) :
    (s.acts as).factory? h = equipped h (s.factory? h) s as := by
  induction as generalizing s with
  | nil => rfl
  | cons a as ih => rw [acts_cons, ih hf.2, factory?_act hf.1, equipped]

/-! ## Trees -/

/-- While a tree is in use, its listener for new layouts changes as the one of its holder does. -/
theorem readyListener_onTree (ho : s.Owned) (hl : s.live? h = some t) (hv : a.vacates h = false)
    (hb : a.bypasses t = false) :
    (a.onTree s t y).readyListener = a.tunes h y.readyListener := by
  have hother {k : Nat} (hk : k ≠ h) : s.live? k ≠ some t := fun hlk =>
    hk (ho.unique k h t hlk hl)
  cases a with
  | evict k =>
      rw [Act.onTree, if_neg (hother (of_decide_eq_false hv))]
      rfl
  | reset k =>
      have hk : k ≠ h := of_decide_eq_false hv
      rw [Act.onTree, if_neg (hother hk), Act.tunes, if_neg hk]
  | setReadyListener k l =>
      rw [Act.onTree, Act.tunes]
      by_cases hk : k = h
      · rw [if_pos hk, if_pos (hk ▸ hl)]
        rfl
      · rw [if_neg hk, if_neg (hother hk)]
  | changeTree u c =>
      rw [Act.onTree]
      split
      · next hu =>
          cases c with
          | release => exact absurd hu (of_decide_eq_false hb)
          | setReadyListener l => exact absurd hu (of_decide_eq_false hb)
          | _ => rfl
      · rfl
  | reportWindow | settleLayout =>
      rw [Act.onTree]
      split <;> rfl
  | _ => rfl

/-- A tree has no listener for new layouts any more when its holder gives it up. -/
theorem readyListener_onTree_of_vacates (hl : s.live? h = some t) (hv : a.vacates h) :
    (a.onTree s t y).readyListener = none := by
  cases a with
  | evict k =>
      obtain rfl : k = h := of_decide_eq_true hv
      rw [Act.onTree, if_pos hl]
      rfl
  | reset k =>
      obtain rfl : k = h := of_decide_eq_true hv
      rw [Act.onTree, if_pos hl]
      rfl
  | _ => cases hv

theorem readyListener_onTree_of_retired (hr : s.Retired t) (hb : a.bypasses t = false) :
    (a.onTree s t y).readyListener = y.readyListener := by
  by_cases hc : ∃ c, a = .changeTree t c
  · obtain ⟨c, rfl⟩ := hc
    rw [Act.onTree, if_pos rfl]
    cases c with
    | release => exact absurd rfl (of_decide_eq_false hb)
    | setReadyListener l => exact absurd rfl (of_decide_eq_false hb)
    | _ => rfl
  · exact (onTree_of_callee?_ne hr.callee?_ne fun c ha => hc ⟨c, ha⟩).2.1

theorem readyListener_acts_of_retired (hr : s.Retired t) (hy : s.tree? t = some y)
    (hb : ∀ a ∈ as, a.bypasses t = false) :
    ∃ z, (s.acts as).tree? t = some z ∧ z.readyListener = y.readyListener := by
  induction as generalizing s y with
  | nil => exact ⟨y, hy, rfl⟩
  | cons a as ih =>
      obtain ⟨z, hz, hready⟩ := ih (hr.act a) (s.tree?_act a hy)
        fun b hb' => hb b (List.mem_cons_of_mem _ hb')
      exact ⟨z, hz, hready.trans (readyListener_onTree_of_retired hr (hb a List.mem_cons_self))⟩

theorem retired_acts (hr : s.Retired t) (as : List Act) : (s.acts as).Retired t :=
  acts_induction (P := (·.Retired t)) (fun _ a hr => hr.act a) hr as

/-- A tree that has the listener for new layouts of its holder has it as long as it is in use, and
none afterwards. -/
theorem readyListener_acts (ho : s.Owned) (hf : Founded s as) (hl : s.live? h = some t)
    (hy : s.tree? t = some y) (hready : y.readyListener = s.listener? h)
    (hb : ∀ a ∈ as, a.bypasses t = false) :
    ∃ z, (s.acts as).tree? t = some z ∧ z.readyListener =
      if (s.acts as).live? h = some t then (s.acts as).listener? h else none := by
  induction as generalizing s y with
  | nil => exact ⟨y, hy, by rw [acts_nil, if_pos hl, hready]⟩
  | cons a as ih =>
      have hlater : ∀ b ∈ as, b.bypasses t = false := fun b hb' => hb b (List.mem_cons_of_mem _ hb')
      cases hv : a.vacates h with
      | true =>
          -- the tree is released, loses its listener, and is of no use to anybody from here on
          have hgone : (s.act a).Retired t := ho.retired hl hv
          obtain ⟨z, hz, hkept⟩ := readyListener_acts_of_retired hgone (s.tree?_act a hy) hlater
          refine ⟨z, hz, ?_⟩
          rw [acts_cons, if_neg (retired_acts hgone as h).2, hkept,
            readyListener_onTree_of_vacates hl hv]
      | false =>
          have hlive := s.live?_act_of_live a hl
          rw [hv, if_neg Bool.false_ne_true] at hlive
          refine ih (ho.act a) hf.2 hlive (s.tree?_act a hy) ?_ hlater
          rw [readyListener_onTree ho hl hv (hb a List.mem_cons_self), hready, listener?_act hf.1]

/-- What a tree that is built for a holder has from it, at first and later on. -/
theorem readyListener_of_supplies? (ho : s.Owned) (ha : a.supplies? s h = some (config, t))
    (hf : Founded s (a :: as)) :
    ∃ y, (s.acts (a :: as)).tree? t = some y ∧ y.config = config ∧
      ((∀ b ∈ as, b.bypasses t = false) → y.readyListener =
        if (s.acts (a :: as)).live? h = some t then (s.acts (a :: as)).listener? h else none) := by
  obtain ⟨tree, htree, -, -, hconfig, hready⟩ := tree?_of_supplies? ha
  obtain ⟨y, hy, hkept⟩ := config_acts htree as
  have hlive := (live?_of_supplies? ha).2.2
  obtain ⟨call, item, component, handle, listener, x, engine, rfl, rfl, hx, -⟩ :=
    exists_of_supplies? ha
  refine ⟨y, hy, hkept.trans hconfig, fun hb => ?_⟩
  have hsame : tree.readyListener =
      (s.act (.claimTree call item component handle listener)).listener? call.holder := by
    rw [listener?_act hf.1, hready x hx, listener?_eq hx]
    rfl
  obtain ⟨z, hz, hlater⟩ := readyListener_acts (ho.act _) hf.2 hlive htree hsame hb
  obtain rfl := Option.some.inj (hz.symm.trans hy)
  exact hlater

/-- A holder that has a tree and keeps it is not acquired if items acquire only holders without. -/
theorem unoffered_of_not_loses (hl : s.live? h = some t) (hn : ¬ Loses h t s as)
    (hvacant : ∀ bs b cs, as = bs ++ b :: cs → b.acquires (s.acts bs) h →
      (s.acts bs).live? h = none) : Unoffered h s as := by
  induction as generalizing s with
  | nil => trivial
  | cons a as ih =>
      have hv : a.vacates h = false := by
        rw [← Bool.not_eq_true]
        exact fun hv => hn (.inl ⟨hl, hv⟩)
      have hlive := s.live?_act_of_live a hl
      rw [hv, if_neg Bool.false_ne_true] at hlive
      refine ⟨?_, ih hlive (fun hlater => hn (.inr hlater)) fun bs b cs has => ?_⟩
      · rw [← Bool.not_eq_true]
        intro hacq
        have hnone : s.live? h = none := hvacant [] a as rfl hacq
        rw [hnone] at hl
        cases hl
      · exact hvacant (a :: bs) b cs (by rw [has]; rfl)

/-! ## Histories -/

/-- Which listeners the trees of holders have in the store `s`, by the history `as` that leads there
from the beginning. -/
structure Tuned (steady : Prop) (as : List Act) (s : Store) : Prop where
  /-- The listener for new layouts of a tree in use is the one that its holder has, which was set
  last since the holder was released. -/
  ready : ∀ h t, s.live? h = some t → (∀ a ∈ as, a.bypasses t = false) →
    ∃ x y, s.holders[h]? = some x ∧ s.tree? t = some y ∧
      x.state.readyListener = lastListener h as ∧ y.readyListener = x.state.readyListener
  /-- A tree in use has a measure listener if the item that asked for it, before it was built, had
  got the holder with a factory, and no other one. This factory made it, with a handle of the
  generation that the holder still has. In a steady history the holder has its factory still. -/
  measured : ∀ h t, s.live? h = some t → ∃ bs cs x y, as = bs ++ cs ∧
    (∀ a ∈ cs, a.resets h = false) ∧ ¬ (({} : Store).acts bs).Built t ∧
    s.holders[h]? = some x ∧ s.tree? t = some y ∧
    y.config.listener = (lastFactory h {} bs).map (⟨·, some (x.downgrade h)⟩) ∧
    (steady → lastFactory h {} bs = lastFactory h {} as)
  /-- The listeners of a tree that was built after a release, whether it is in use or not, come of
  what was done after this release. -/
  renewed : ∀ bs cs a ds h config t, as = bs ++ .reset h :: (cs ++ a :: ds) →
    a.supplies? (({} : Store).acts (bs ++ .reset h :: cs)) h = some (config, t) →
      ∃ es fs x y, cs = es ++ fs ∧ (∀ b ∈ fs, b.resets h = false) ∧
        (({} : Store).acts (bs ++ .reset h :: cs)).holders[h]? = some x ∧ s.tree? t = some y ∧
        y.config.listener = (lastFactory h (({} : Store).acts (bs ++ [.reset h])) es).map
          (⟨·, some (x.downgrade h)⟩) ∧
        (steady → lastFactory h (({} : Store).acts (bs ++ [.reset h])) es =
          lastFactory h (({} : Store).acts (bs ++ [.reset h])) cs) ∧
        ((∀ b ∈ as, b.bypasses t = false) → y.readyListener =
          if s.live? h = some t then lastListener h (cs ++ a :: ds) else none)

theorem factory?_eq_lastFactory (hf : Founded {} as) :
    (({} : Store).acts as).factory? h = lastFactory h {} as := factory?_acts hf

theorem listener?_eq_lastListener (hf : Founded {} as) :
    (({} : Store).acts as).listener? h = lastListener h as := listener?_acts hf

/-- Nothing from before a release counts. -/
theorem lastFactory_reset (as bs : List Act) (h : Nat) :
    lastFactory h s (as ++ .reset h :: bs) = lastFactory h (s.acts (as ++ [.reset h])) bs := by
  rw [← List.singleton_append, ← List.append_assoc, lastFactory, equipped_append, equipped_append,
    equipped, equipped, Act.equips, if_pos rfl, lastFactory]

theorem lastListener_reset (as bs : List Act) (h : Nat) :
    lastListener h (as ++ .reset h :: bs) = lastListener h bs := by
  rw [lastListener, List.foldl_append, List.foldl_cons, Act.tunes, if_pos rfl, lastListener]

/-- A holder that is not released keeps its generation, and its factory if it is not acquired. -/
theorem lastFactory_eq (hf : Founded {} (as ++ bs))
    (hx : (({} : Store).acts as).holders[h]? = some x) (hr : ∀ b ∈ bs, b.resets h = false) :
    ∃ z, (({} : Store).acts (as ++ bs)).holders[h]? = some z ∧ z.generation = x.generation ∧
      x.state.factory = lastFactory h {} as ∧
      (Unoffered h (({} : Store).acts as) bs →
        lastFactory h {} as = lastFactory h {} (as ++ bs)) := by
  have hbefore := factory?_eq_lastFactory (h := h) (founded_append.1 hf).1
  rw [factory?_eq hx] at hbefore
  obtain ⟨z, hz, -⟩ := item_acts hx hr
  rw [← acts_append] at hz
  refine ⟨z, hz, ?_, hbefore, fun hu => ?_⟩
  · rw [generation_acts _ bs hx (acts_append .. ▸ hz), List.countP_eq_zero.2 fun b hb => by
      rw [hr b hb]
      exact Bool.false_ne_true, Nat.add_zero]
  · obtain ⟨z', hz', hfactory⟩ := factory_acts hx hr hu
    rw [← acts_append] at hz'
    obtain rfl := Option.some.inj (hz.symm.trans hz')
    rw [← hbefore, ← hfactory, ← factory?_eq_lastFactory hf, factory?_eq hz]

/-- A history since which a holder was not released begins after each release of the holder. -/
theorem exists_of_reset_append {ds : List Act} (heq : as ++ .reset h :: bs = cs ++ ds)
    (hds : ∀ d ∈ ds, d.resets h = false) :
    ∃ es, cs = as ++ .reset h :: es ∧ bs = es ++ ds := by
  have hnot : .reset h ∉ ds := fun hmem => absurd (hds _ hmem) (by simp [Act.resets])
  rcases List.append_eq_append_iff.1 heq with ⟨es, rfl, hes⟩ | ⟨es, rfl, hes⟩
  · cases es with
    | nil =>
        rw [List.nil_append] at hes
        exact absurd (hes ▸ List.mem_cons_self) hnot
    | cons e es =>
        obtain ⟨rfl, rfl⟩ := List.cons.inj hes
        exact ⟨es, rfl, rfl⟩
  · exact absurd (hes ▸ List.mem_append_right _ List.mem_cons_self) hnot

/-- A holder that still has a tree which was built for it was not released since then, nor acquired
if items acquire only holders without a tree. -/
theorem since_supplies? (ho : s.Owned) (ha : a.supplies? s h = some (config, t))
    (hl : (s.acts (a :: as)).live? h = some t) : (∀ b ∈ a :: as, b.resets h = false) ∧
      ((∀ bs b cs, as = bs ++ b :: cs → b.acquires (s.acts (a :: bs)) h →
        (s.acts (a :: bs)).live? h = none) → Unoffered h s (a :: as)) := by
  obtain ⟨-, -, hfirst⟩ := live?_of_supplies? ha
  have hkept : ¬ Loses h t (s.act a) as := fun hloses =>
    live?_acts_of_loses (ho.act a) hloses (acts_cons s a as ▸ hl)
  have hlater := (live?_acts_of_not_loses hfirst hkept).2
  obtain ⟨call, item, component, handle, listener, rfl, -⟩ := claimTree_eq_of_supplies? ha
  refine ⟨fun b hb => ?_, fun hvacant => ⟨rfl, unoffered_of_not_loses hfirst hkept hvacant⟩⟩
  rcases List.mem_cons.1 hb with rfl | hb
  · rfl
  · exact hlater b hb

/-- Each part follows the tree from the act that built it. -/
theorem tuned {steady : Prop} (hf : Founded {} as) (hp : Prepared steady as) :
    Tuned steady as (({} : Store).acts as) where
  ready h t hl hb := by
    obtain ⟨bs, a, cs, config, rfl, ha⟩ := exists_of_mem_builtFor (of_live?_acts hl).1
    obtain ⟨y, hy, -, hready⟩ :=
      readyListener_of_supplies? (owned_acts bs) ha (founded_append.1 hf).2
    obtain ⟨z, hz, -⟩ := exists_of_live? _ hl
    rw [← acts_append] at hy hready
    refine ⟨z, y, hz, hy, ?_, ?_⟩
    · rw [← listener?_eq hz, listener?_eq_lastListener hf]
    · rw [hready fun b hb' => hb b (List.mem_append_right _ (List.mem_cons_of_mem _ hb')),
        if_pos hl, listener?_eq hz]
  measured h t hl := by
    obtain ⟨bs, a, cs, config, rfl, ha⟩ := exists_of_mem_builtFor (of_live?_acts hl).1
    obtain ⟨ds, es, x, rfl, hresets, hx, hlistener, hunoffered⟩ :=
      hp.measured _ a cs h config t rfl ha
    obtain ⟨y, hy, rfl, -⟩ := readyListener_of_supplies? (owned_acts _) ha (founded_append.1 hf).2
    rw [← acts_append] at hy
    obtain ⟨-, hnew, -⟩ := live?_of_supplies? ha
    obtain ⟨hlater, hkept⟩ := since_supplies? (owned_acts _) ha (acts_append .. ▸ hl)
    have hsince : ∀ b ∈ es ++ a :: cs, b.resets h = false := fun b hb =>
      (List.mem_append.1 hb).elim (hresets b) (hlater b)
    have hvacant (hs : steady) := hp.vacant hs
    rw [List.append_assoc] at hf hy hl ⊢
    obtain ⟨z, hz, hgeneration, hfactory, hsame⟩ := lastFactory_eq hf hx hsince
    refine ⟨ds, es ++ a :: cs, z, y, rfl, hsince, fun hds => hnew ?_, hz, hy, ?_, fun hs => ?_⟩
    · rw [acts_append]
      exact acts_induction (P := (·.Built t)) (fun s a hb => hb.act s a) hds es
    · rw [hlistener, hfactory, Holder.downgrade, Holder.downgrade, hgeneration]
    · refine hsame (unoffered_append.2 ⟨hunoffered hs, ?_⟩)
      rw [← acts_append]
      refine hkept fun bs b cs' hcs hacq => ?_
      have hbefore := hvacant hs (ds ++ es ++ a :: bs) b cs' h (by simp [hcs])
      rw [acts_append] at hbefore
      exact hbefore hacq
  renewed := by
    rintro bs cs a ds h config t rfl ha
    rw [← List.cons_append, ← List.append_assoc] at hf hp ⊢
    obtain ⟨es, fs, x, heq, hresets, hx, hlistener, hunoffered⟩ :=
      hp.measured _ a ds h config t rfl ha
    obtain ⟨gs, rfl, rfl⟩ := exists_of_reset_append heq hresets
    obtain ⟨y, hy, rfl, hready⟩ :=
      readyListener_of_supplies? (owned_acts _) ha (founded_append.1 hf).2
    rw [← acts_append] at hy hready
    rw [heq] at hf
    obtain ⟨z, hz, hgeneration, hfactory, hsame⟩ :=
      lastFactory_eq (founded_append.1 hf).1 hx hresets
    rw [lastFactory_reset] at hfactory hsame
    rw [← heq, lastFactory_reset] at hsame
    rw [← heq] at hz
    refine ⟨gs, fs, z, y, rfl, hresets, hz, hy, ?_, fun hs => hsame (hunoffered hs), fun hb => ?_⟩
    · rw [hlistener, hfactory, Holder.downgrade, Holder.downgrade, hgeneration]
    · rw [hready fun b hb' => hb b (List.mem_append_right _ (List.mem_cons_of_mem _ hb')),
        listener?_eq_lastListener (heq ▸ hf), List.append_assoc, List.cons_append,
        lastListener_reset]

end Recycler.Store

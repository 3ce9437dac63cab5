import Mathlib.Data.List.Induction
import Recycler.Proofs.Store.Tree

/-!
# Armed engines

An engine is armed with a reason, which strikes the next layout that begins on a tree of the engine,
unless the tree was released (`enterLayout`). So it is armed with the reason it was armed with last,
if no layout began on such a tree since (`Armed`). Beside it the engine counts the layouts that were
settled on its trees.
-/

namespace Recycler.Store

/-- What an engine keeps for its layouts: the reason it is armed with, and how many were settled. -/
def account? (s : Store) (e : Nat) : Option (Option String × Nat) :=
  s.engines[e]?.map fun x => (x.armed, x.layouts)

/-- The reason that an act arms an engine with. -/
def Act.arms? (e : Nat) : Act → Option String
  | .changeEngine k (.arm reason) => if k = e then some reason else none
  | _ => none

/-- Whether an act begins a layout on a tree of an engine that was not released. -/
def Act.begins (s : Store) (e : Nat) : Act → Bool
  | .enterLayout t => t.engine = e ∧ (s.tree? t).any (!·.released)
  | _ => false

/-- Whether an act settles a layout on a tree of an engine. -/
def Act.settlesOn (e : Nat) : Act → Bool
  | .settleLayout l _ => l.tree.engine = e
  | _ => false

/-- What an act makes of the account of an engine. -/
def Act.onAccount (s : Store) (e : Nat) (a : Act) (c : Option String × Nat) :
    Option String × Nat :=
  (if a.begins s e then none else (a.arms? e).or c.1, c.2 + if a.settlesOn e then 1 else 0)

/-- An engine is not armed anew, and no layout begins on a tree of it that was not released. -/
def Unspent (e : Nat) (s : Store) : List Act → Prop
  | [] => True
  | a :: as => (a.arms? e = none ∧ a.begins s e = false) ∧ Unspent e (s.act a) as

/-- An engine was armed with a reason, and since then it was not armed anew, nor did a layout begin
on a tree of it that was not released. -/
def Armed (e : Nat) (s : Store) (as : List Act) (reason : String) : Prop :=
  ∃ bs cs, as = bs ++ .changeEngine e (.arm reason) :: cs ∧ ((s.acts bs).engines[e]?).isSome ∧
    Unspent e (s.acts (bs ++ [.changeEngine e (.arm reason)])) cs

variable {s : Store} {e : Nat} {x : Engine} {a : Act} {as bs : List Act} {t : TreeRef} {u : Tree}
  {reason : String}

theorem eq_of_arms? (ha : a.arms? e = some reason) : a = .changeEngine e (.arm reason) := by
  unfold Act.arms? at ha
  split at ha
  · split at ha
    · next hk => rw [hk, Option.some.inj ha]
    · cases ha
  · cases ha

/-! ## The account of an engine -/

theorem account?_congr {s' : Store} (h : s'.engines = s.engines) (e : Nat) :
    s'.account? e = s.account? e := by rw [account?, account?, h]

theorem account?_modifyEngine (k : Nat) (f : Engine → Engine) :
    (s.modifyEngine k f).account? e =
      s.engines[e]?.map fun x =>
        if k = e then ((f x).armed, (f x).layouts) else (x.armed, x.layouts) := by
  rw [account?, modifyEngine, List.getElem?_modify]
  cases s.engines[e]? with
  | none => split <;> rfl
  | some x => split <;> rfl

theorem account?_modifyEngine_of_eq (k : Nat) {f : Engine → Engine}
    (hf : ∀ x, (f x).armed = x.armed ∧ (f x).layouts = x.layouts) :
    (s.modifyEngine k f).account? e = s.account? e := by
  rw [account?_modifyEngine, account?]
  congr 1
  funext x
  split
  · rw [(hf x).1, (hf x).2]
  · rfl

@[simp] theorem account?_modifyTree (t : TreeRef) (f : Tree → Tree) :
    (s.modifyTree t f).account? e = s.account? e :=
  account?_modifyEngine_of_eq _ fun _ => ⟨rfl, rfl⟩

theorem account?_modifyLive (h : Nat) (f : Tree → Tree) :
    (s.modifyLive h f).account? e = s.account? e := by
  unfold modifyLive
  split
  · exact account?_modifyTree ..
  · rfl

theorem account?_claimTree (s : Store) (call : Call) (item : Shared Descriptor)
    (component : Component) (handle : WeakHandle) (listener : Option MeasureListener) :
    (s.claimTree call item component handle listener).1.account? e = s.account? e := by
  have hbuild (f : Engine → Engine) (hf : ∀ x, (f x).armed = x.armed ∧ (f x).layouts = x.layouts) :
      ((s.modifyState call.holder (·.takeParked)).modifyEngine call.engine f).account? e =
        s.account? e :=
    (account?_modifyEngine_of_eq _ hf).trans (account?_congr (engines_modifyState ..) e)
  unfold claimTree
  split
  · split
    · split
      · rfl
      · dsimp only
        split
        · exact hbuild _ fun _ => ⟨rfl, rfl⟩
        · refine (account?_congr (engines_modifyState ..) e).trans ?_
          split
          · exact (account?_modifyTree ..).trans (hbuild _ fun _ => ⟨rfl, rfl⟩)
          · exact hbuild _ fun _ => ⟨rfl, rfl⟩
    · rfl
  · rfl

theorem account?_enterLayout (s : Store) (t : TreeRef) :
    (s.enterLayout t).1.account? e = (s.account? e).map ((Act.enterLayout t).onAccount s e) := by
  have honAccount (c : Option String × Nat) : (Act.enterLayout t).onAccount s e c =
      (if t.engine = e ∧ (s.tree? t).any (!·.released) then none else c.1, c.2) := by
    simp [Act.onAccount, Act.begins, Act.arms?, Act.settlesOn]
  rw [show (Act.enterLayout t).onAccount s e = _ from funext honAccount]
  have hidle (hno : ¬ (t.engine = e ∧ (s.tree? t).any (!·.released))) : s.account? e =
      (s.account? e).map fun c =>
        (if t.engine = e ∧ (s.tree? t).any (!·.released) then none else c.1, c.2) := by
    simp only [if_neg hno]
    exact Option.map_id'.symm
  unfold enterLayout
  split
  · next engine tree he htree =>
      have hany : (s.tree? t).any (!·.released) = !tree.released := by rw [htree]; rfl
      split
      · next hreleased => exact hidle (by simp [hany, hreleased])
      · next hreleased =>
          rw [hany, show (!tree.released) = true by simpa using hreleased]
          split
          · rw [account?_modifyEngine, account?, Option.map_map]
            congr 1
            funext x
            by_cases hk : t.engine = e <;> simp [hk]
          · next harmed =>
              -- the engine is not armed, so that the layout leaves it as it was
              have hunarmed : s.account? e =
                  (s.account? e).map fun c => (if t.engine = e ∧ true then none else c.1, c.2) := by
                by_cases hk : t.engine = e
                · subst hk
                  simp [account?, he, harmed]
                · simp [hk]
              split <;> exact hunarmed
  · next hnone =>
      refine hidle fun hany => ?_
      obtain ⟨tree, htree, -⟩ := (Option.any_eq_true _ _).1 hany.2
      obtain ⟨engine, he, -⟩ := Option.bind_eq_some_iff.1 htree
      exact hnone engine tree he htree

/-! ## How a layout begins -/

theorem exists_engine_of_tree? (hu : s.tree? t = some u) : ∃ x, s.engines[t.engine]? = some x := by
  obtain ⟨x, hx, -⟩ := Option.bind_eq_some_iff.1 hu
  exact ⟨x, hx⟩

/-- On a released tree a layout does not begin, and nothing happens. -/
theorem enterLayout_of_released (hu : s.tree? t = some u) (hr : u.released = true) :
    s.enterLayout t = (s, .failed .released) := by
  obtain ⟨x, hx⟩ := exists_engine_of_tree? hu
  simp [enterLayout, hx, hu, hr]

theorem enterLayout_eq_measure_iff (hu : s.tree? t = some u) :
    (s.enterLayout t).2 = .failed (.measure reason) ↔
      u.released = false ∧ (s.engines[t.engine]?).bind (·.armed) = some reason := by
  obtain ⟨x, hx⟩ := exists_engine_of_tree? hu
  cases hr : u.released with
  | true => simp [enterLayout, hx, hu, hr]
  | false =>
      cases harmed : x.armed with
      | some reason' => simp [enterLayout, hx, hu, hr, harmed]
      | none => cases hgate : x.gate <;> simp [enterLayout, hx, hu, hr, harmed, hgate]

theorem armed_eq_account? (s : Store) (e : Nat) :
    (s.engines[e]?).bind (·.armed) = (s.account? e).bind Prod.fst := by
  rw [account?, Option.bind_map]
  rfl

/-- A layout that begins leaves its engine unarmed. -/
theorem armed_enterLayout (hu : s.tree? t = some u) (hr : u.released = false) :
    ((s.enterLayout t).1.engines[t.engine]?).bind (·.armed) = none := by
  rw [armed_eq_account?, account?_enterLayout, Option.bind_map]
  cases s.account? t.engine with
  | none => rfl
  | some c => simp [Act.onAccount, Act.begins, hu, hr]

/-! ## What an act makes of an account -/

/-- What an act makes of the accounts of engines. An engine that it adds begins with an empty
one. -/
theorem account?_act (a : Act) :
    (s.act a).account? e = (s.account? e).map (a.onAccount s e) ∨
      s.account? e = none ∧ (s.act a).account? e = some (none, 0) := by
  have hkept (hsame : (s.act a).account? e = s.account? e) (hidle : ∀ c, a.onAccount s e c = c) :
      (s.act a).account? e = (s.account? e).map (a.onAccount s e) ∨
        s.account? e = none ∧ (s.act a).account? e = some (none, 0) := by
    left
    rw [hsame, show a.onAccount s e = id from funext hidle, Option.map_id]
    rfl
  cases a with
  | acquire p item policy factory =>
      exact hkept (account?_congr (s.engines_acquire p item policy factory) e) fun _ => rfl
  | giveBack h referred =>
      exact hkept (account?_congr (s.engines_giveBack h referred) e) fun _ => rfl
  | openRequest call => exact hkept (account?_congr (s.engines_openRequest call) e) fun _ => rfl
  | evict h =>
      exact hkept ((account?_congr (s.engines_evict h) e).trans (account?_modifyLive ..))
        fun _ => rfl
  | reset h =>
      exact hkept ((account?_congr (s.engines_reset h) e).trans (account?_modifyLive ..))
        fun _ => rfl
  | setReadyListener h l =>
      have hsame := account?_congr (s.engines_setReadyListener h l) e
      exact hkept (hsame.trans (account?_modifyLive ..)) fun _ => rfl
  | reportWindow h position w => exact hkept (account?_modifyLive ..) fun _ => rfl
  | claimTree call item component handle listener =>
      exact hkept (s.account?_claimTree call item component handle listener) fun _ => rfl
  | commitLayout r size =>
      exact hkept (account?_congr (s.engines_commitLayout r size) e) fun _ => rfl
  | confirmLayout r => exact hkept (account?_congr (s.engines_confirmLayout r) e) fun _ => rfl
  | writeHeight w height =>
      exact hkept (account?_congr (s.engines_writeHeight w height) e) fun _ => rfl
  | dequeue q => exact hkept (account?_congr (s.engines_dequeue q) e) fun _ => rfl
  | enterLayout t => exact .inl (s.account?_enterLayout t)
  | settleLayout l size =>
      left
      rw [act, settleLayout, account?_modifyEngine, account?, modifyTree, modifyEngine,
        List.getElem?_modify]
      by_cases he : l.tree.engine = e
      · simp [he, Act.onAccount, Act.begins, Act.arms?, Act.settlesOn, Function.comp_def,
          Engine.modifyTree]
      · simp [he, Act.onAccount, Act.begins, Act.arms?, Act.settlesOn, Function.comp_def]
  | changeEngine k c =>
      cases c with
      | arm reason =>
          left
          rw [act, account?_modifyEngine, account?, Option.map_map]
          congr 1
          funext x
          by_cases he : k = e <;>
            simp [he, Act.onAccount, Act.begins, Act.arms?, Act.settlesOn, Engine.change]
      | setGate gate => exact hkept (account?_modifyEngine_of_eq _ fun _ => ⟨rfl, rfl⟩) fun _ => rfl
      | setRefusal refuses =>
          exact hkept (account?_modifyEngine_of_eq _ fun _ => ⟨rfl, rfl⟩) fun _ => rfl
  | build k config => exact hkept (account?_modifyEngine_of_eq _ fun _ => ⟨rfl, rfl⟩) fun _ => rfl
  | changeTree t c => exact hkept (account?_modifyTree ..) fun _ => rfl
  | addEngine name measure manner =>
      by_cases he : e = s.engines.length
      · right
        subst he
        simp [account?, act]
      · refine hkept ?_ fun _ => rfl
        rw [account?, account?, act]
        congr 1
        rcases Nat.lt_or_gt_of_ne he with h | h
        · exact List.getElem?_append_left h
        · rw [List.getElem?_eq_none (Nat.le_of_lt h), List.getElem?_eq_none (by simp; omega)]
  | _ => exact hkept rfl fun _ => rfl

/-! ## Histories -/

theorem unspent_append :
    Unspent e s (as ++ bs) ↔ Unspent e s as ∧ Unspent e (s.acts as) bs := by
  induction as generalizing s with
  | nil => exact (and_iff_right trivial).symm
  | cons a as ih =>
      rw [List.cons_append, Unspent, Unspent, ih, and_assoc, and_assoc, and_assoc, acts_cons]

/-- What an engine is armed with after one more act. -/
theorem armed_concat :
    Armed e s (as ++ [a]) reason ↔
      (a = .changeEngine e (.arm reason) ∧ ((s.acts as).engines[e]?).isSome) ∨
        Armed e s as reason ∧ a.arms? e = none ∧ a.begins (s.acts as) e = false := by
  constructor
  · rintro ⟨bs, cs, heq, he, hcs⟩
    rcases List.eq_nil_or_concat cs with rfl | ⟨cs, b, rfl⟩
    · obtain ⟨rfl, hlast⟩ := List.append_inj' heq rfl
      obtain rfl := List.singleton_inj.1 hlast
      exact .inl ⟨rfl, he⟩
    · rw [List.concat_eq_append, ← List.cons_append, ← List.append_assoc] at heq
      obtain ⟨rfl, hlast⟩ := List.append_inj' heq rfl
      obtain rfl := List.singleton_inj.1 hlast
      rw [List.concat_eq_append, unspent_append, ← acts_append, List.append_assoc,
        List.singleton_append] at hcs
      exact .inr ⟨⟨bs, cs, rfl, he, hcs.1⟩, hcs.2.1⟩
  · rintro (⟨rfl, he⟩ | ⟨⟨bs, cs, rfl, he, hcs⟩, hkept⟩)
    · exact ⟨as, [], rfl, he, trivial⟩
    · refine ⟨bs, cs ++ [a], by rw [List.append_assoc, List.cons_append], he, ?_⟩
      rw [unspent_append, ← acts_append, List.append_assoc, List.singleton_append]
      exact ⟨hcs, hkept, trivial⟩

theorem isSome_engines_acts (he : (s.engines[e]?).isSome) (as : List Act) :
    ((s.acts as).engines[e]?).isSome := by
  refine acts_induction (P := fun s => (s.engines[e]?).isSome) (fun s a he => ?_) he as
  obtain ⟨x, hx⟩ := Option.isSome_iff_exists.1 he
  rcases s.account?_act (e := e) a with h | ⟨h, -⟩
  · rw [account?, account?, hx] at h
    simpa using congrArg Option.isSome h
  · rw [account?, hx] at h
    cases h

/-- An engine that was not armed is armed with the reason it was armed with last, if no layout began
since. -/
theorem armed_iff (hs : (s.engines[e]?).bind (·.armed) = none)
    (hx : (s.acts as).engines[e]? = some x) : x.armed = some reason ↔ Armed e s as reason := by
  induction as using List.reverseRecOn generalizing x with
  | nil =>
      rw [acts_nil] at hx
      rw [hx, Option.bind_some] at hs
      rw [hs]
      refine ⟨fun h => (nomatch h), ?_⟩
      rintro ⟨bs, cs, heq, -⟩
      simp at heq
  | append_singleton as a ih =>
      rw [acts_append] at hx
      rw [armed_concat]
      have haccount : ((s.acts as).act a).account? e = some (x.armed, x.layouts) := by
        rw [account?, show ((s.acts as).act a).engines[e]? = some x from hx]
        rfl
      rcases (s.acts as).account?_act (e := e) a with h | ⟨hnone, h⟩
      · rw [haccount] at h
        obtain ⟨c, hc, h⟩ := Option.map_eq_some_iff.1 h.symm
        obtain ⟨y, hy, rfl⟩ := Option.map_eq_some_iff.1 hc
        have harmed : x.armed = if a.begins (s.acts as) e then none else (a.arms? e).or y.armed :=
          congrArg Prod.fst h.symm
        cases ha : a.arms? e with
        | some reason' =>
            obtain rfl := eq_of_arms? ha
            rw [harmed, ha]
            simp [Act.begins, hy, eq_comm]
        | none =>
            have hne : a ≠ .changeEngine e (.arm reason) := by
              rintro rfl
              simp [Act.arms?] at ha
            rw [harmed, ha, Option.none_or]
            cases hb : a.begins (s.acts as) e with
            | true => simp [hne]
            | false => simpa [hne] using ih hy
      · have hgone : (s.acts as).engines[e]? = none := Option.map_eq_none_iff.1 hnone
        have hunarmed : x.armed = none :=
          congrArg Prod.fst (Option.some.inj (haccount.symm.trans h))
        rw [hunarmed, hgone]
        refine ⟨fun h => (nomatch h), ?_⟩
        rintro (⟨-, hsome⟩ | ⟨⟨bs, cs, rfl, he, -⟩, -⟩)
        · cases hsome
        · have hsome := isSome_engines_acts he (.changeEngine e (.arm reason) :: cs)
          rw [← acts_append, hgone] at hsome
          cases hsome

/-- What an engine is armed with that nobody armed it with in the meantime is not spent. -/
theorem unspent_of_armed (has : ∀ a ∈ as, a.arms? e = none)
    (harmed : ((s.acts as).account? e).bind Prod.fst = some reason) : Unspent e s as := by
  induction as using List.reverseRecOn with
  | nil => trivial
  | append_singleton as a ih =>
      have ha := has a (List.mem_append_right as List.mem_cons_self)
      rw [acts_append] at harmed
      rcases (s.acts as).account?_act (e := e) a with h | ⟨-, h⟩
      · rw [acts_cons, acts_nil, h] at harmed
        obtain ⟨c', hc', hreason⟩ := Option.bind_eq_some_iff.1 harmed
        obtain ⟨c, hc, rfl⟩ := Option.map_eq_some_iff.1 hc'
        have hbegins : a.begins (s.acts as) e = false := by
          by_contra hb
          rw [Bool.not_eq_false] at hb
          simp [Act.onAccount, hb] at hreason
        have hbefore : ((s.acts as).account? e).bind Prod.fst = some reason := by
          simpa [Act.onAccount, hbegins, ha, hc] using hreason
        exact unspent_append.2
          ⟨ih (fun b hb => has b (List.mem_append_left [a] hb)) hbefore, ⟨ha, hbegins⟩, trivial⟩
      · rw [acts_cons, acts_nil, h] at harmed
        cases harmed

theorem isSome_engines_of_tree? (hu : (s.tree? t).isSome) : (s.engines[t.engine]?).isSome := by
  obtain ⟨u, hu⟩ := Option.isSome_iff_exists.1 hu
  exact Option.isSome_iff_exists.2 (exists_engine_of_tree? hu)

/-- An engine counts the layouts that were settled on its trees. -/
theorem layouts_eq (hs : s.engines = []) (hx : (s.acts as).engines[e]? = some x)
    (hbuilt : ∀ bs l size cs, as = bs ++ .settleLayout l size :: cs →
      ((s.acts bs).tree? l.tree).isSome) :
    x.layouts = as.countP (Act.settlesOn e) := by
  induction as using List.reverseRecOn generalizing x with
  | nil =>
      rw [acts_nil, hs] at hx
      cases hx
  | append_singleton as a ih =>
      have hbuilt' : ∀ bs l size cs, as = bs ++ .settleLayout l size :: cs →
          ((s.acts bs).tree? l.tree).isSome := fun bs l size cs h =>
        hbuilt bs l size (cs ++ [a]) (by rw [h, List.append_assoc, List.cons_append])
      rw [acts_append] at hx
      have haccount : ((s.acts as).act a).account? e = some (x.armed, x.layouts) := by
        rw [account?, show ((s.acts as).act a).engines[e]? = some x from hx]
        rfl
      rw [List.countP_append, List.countP_singleton]
      rcases (s.acts as).account?_act (e := e) a with h | ⟨hnone, h⟩
      · rw [haccount] at h
        obtain ⟨c, hc, h⟩ := Option.map_eq_some_iff.1 h.symm
        obtain ⟨y, hy, rfl⟩ := Option.map_eq_some_iff.1 hc
        rw [← ih hy hbuilt']
        exact congrArg Prod.snd h.symm
      · -- no layout was settled on a tree of an engine that is not there yet
        have hgone : (s.acts as).engines[e]? = none := Option.map_eq_none_iff.1 hnone
        have hzero : x.layouts = 0 := congrArg Prod.snd (Option.some.inj (haccount.symm.trans h))
        have hnone (b : Act) (hb : b ∈ as ++ [a]) : ¬ b.settlesOn e = true := fun he => by
          obtain ⟨bs, cs, heq⟩ := List.append_of_mem hb
          cases b with
          | settleLayout l size =>
              obtain rfl : l.tree.engine = e := by simpa [Act.settlesOn] using he
              obtain ⟨ds, rfl⟩ : bs <+: as := by
                rcases List.eq_nil_or_concat cs with rfl | ⟨cs, c, rfl⟩
                · exact ⟨[], (List.append_nil _).trans (List.append_inj' heq rfl).1.symm⟩
                · rw [List.concat_eq_append, ← List.cons_append, ← List.append_assoc] at heq
                  exact ⟨_, (List.append_inj' heq rfl).1.symm⟩
              have hsome := isSome_engines_acts
                (isSome_engines_of_tree? (hbuilt bs l size cs heq)) ds
              rw [← acts_append, hgone] at hsome
              cases hsome
          | _ => cases he
        rw [hzero, ← List.countP_singleton, ← List.countP_append, List.countP_eq_zero.2 hnone]

end Recycler.Store

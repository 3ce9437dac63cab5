import Recycler.Proofs.Twin.Mirror

/-!
# A new pair

An item that acquires a holder gets one that nobody refers to and no live handle is to, in each of
two sessions that mirror each other. So the renaming can be changed to have the two stand for each
other (`Renaming.pair`) without a change to anything that is referred to (`Agrees`).
-/

namespace Recycler

variable {ρ ρ' : Renaming} {P : Nat → Prop}

/-- The renaming by which the holder `h'` stands for `h`, and handles that are made for them from
the generations `g'` and `g` on go with each other. -/
def Renaming.pair (ρ : Renaming) (h g h' g' : Nat) : Renaming where
  holder k := if k = h then h' else ρ.holder k
  handle w := if w.holder = h ∧ g ≤ w.generation then ⟨h', g' + (w.generation - g)⟩ else ρ.handle w

theorem Renaming.pair_handle (ρ : Renaming) (h g h' g' n : Nat) :
    (ρ.pair h g h' g').handle ⟨h, g + n⟩ = ⟨h', g' + n⟩ := by
  simp [Renaming.pair]

/-! ## Renamings that agree -/

theorem Frame.rename_congr {u : Store} {f : Frame} (hs : f.Sound u)
    (hholder : ∀ k, f.holder? = some k → ρ'.holder k = ρ.holder k)
    (hhandle : ∀ w, f.handle? = some w → ρ'.handle w = ρ.handle w) :
    f.rename ρ' = f.rename ρ := by
  cases f with
  | openRequest call => simp [Frame.rename, Call.rename, hholder call.holder rfl]
  | factory maker w => simp [Frame.rename, hhandle w rfl]
  | claimTree call item component handle listener =>
      have hcall := hholder call.holder rfl
      have hw := hhandle handle rfl
      have hlistener : listener.map (·.rename ρ') = listener.map (·.rename ρ) := by
        cases listener with
        | none => rfl
        | some l => simp [MeasureListener.rename, hs.2.2.2 l rfl, hw]
      simp [Frame.rename, Call.rename, hcall, hw, hlistener]
  | layout l sequel stage =>
      cases sequel with
      | commit r =>
          have hcall := hholder r.call.holder rfl
          simp [Frame.rename, Sequel.rename, Request.rename, Call.rename, hcall]
      | _ => rfl
  | confirm r =>
      have hcall := hholder r.call.holder rfl
      simp [Frame.rename, Request.rename, Call.rename, hcall]
  | giveBack k => simp [Frame.rename, hholder k rfl]
  | _ => rfl

theorem Tree.rename_congr {t : Tree}
    (h : ∀ l w, t.config.listener = some l → l.handle = some w → ρ'.handle w = ρ.handle w) :
    t.rename ρ' = t.rename ρ := by
  have hlistener : t.config.listener.map (·.rename ρ') = t.config.listener.map (·.rename ρ) := by
    cases hl : t.config.listener with
    | none => rfl
    | some l =>
        cases hw : l.handle with
        | none => simp [MeasureListener.rename, hw]
        | some w => simp [MeasureListener.rename, hw, h l w hl hw]
  unfold Tree.rename Tree.Config.rename
  rw [hlistener]

namespace Store

variable {u u' : Store} {p : Nat}

theorem Paired.congr {k : Nat} (h : Paired ρ u u' k) (hholder : ρ'.holder k = ρ.holder k)
    (hhandle : ∀ g, ρ'.handle ⟨k, g⟩ = ρ.handle ⟨k, g⟩) : Paired ρ' u u' k := by
  obtain ⟨x, g, hx, hx', hmade⟩ := h
  refine ⟨x, g, hx, hholder ▸ hx', fun n => ?_⟩
  rw [hhandle, hmade, hholder]

theorem engines_congr (h : ∀ w, u.Listens w → ρ'.handle w = ρ.handle w) :
    u.engines.map (·.rename ρ') = u.engines.map (·.rename ρ) := by
  refine List.map_congr_left fun engine he => ?_
  obtain ⟨e, he⟩ := List.getElem?_of_mem he
  have htrees : engine.trees.map (·.rename ρ') = engine.trees.map (·.rename ρ) := by
    refine List.map_congr_left fun tree hn => Tree.rename_congr fun l w hl hw => ?_
    obtain ⟨n, hn⟩ := List.getElem?_of_mem hn
    refine h w ⟨⟨e, n⟩, tree, l, ?_, hl, hw⟩
    rw [Store.tree?, he]
    exact hn
  unfold Engine.rename
  rw [htrees]

/-! ## Holders that are taken -/

/-- The holder that an item acquires is as new. -/
theorem holders_takeHolder (hu : u.Unused) (p : Nat) :
    ∃ g, (u.takeHolder p).1.holders[(u.takeHolder p).2.1]? =
      some { Holder.fresh p with generation := g } := by
  cases hp : u.offered? p with
  | none =>
      rw [u.takeHolder_of_not_offered? hp]
      exact ⟨0, by simp [Holder.fresh]⟩
  | some k =>
      rw [u.takeHolder_of_offered? hp]
      exact hu p k (.of_offered? u hp)

theorem Alike.takeHolder (h : Alike ρ u u') (p : Nat) :
    Alike ρ (u.takeHolder p).1 (u'.takeHolder p).1 := by
  have htaken (t : Store) : ∃ holders,
      (t.takeHolder p).1 = { t.modifyPool p (·.take.1) with holders := holders } := by
    cases hp : t.offered? p with
    | none => exact ⟨_, congrArg Prod.fst (t.takeHolder_of_not_offered? hp)⟩
    | some k => exact ⟨_, congrArg Prod.fst (t.takeHolder_of_offered? hp)⟩
  obtain ⟨holders, heq⟩ := htaken u
  obtain ⟨holders', heq'⟩ := htaken u'
  obtain ⟨hengines, hgates, hqueues, hcap⟩ := h.modifyPool p p capacity_take capacity_take
  rw [heq, heq']
  exact ⟨hengines, hgates, hqueues, hcap⟩

theorem holders_acquire_of_ne {k : Nat} {x : Holder} (hx : u.holders[k]? = some x)
    (hk : k ≠ (u.takeHolder p).2.1) (item : Shared Descriptor) (policy : Policy)
    (factory : Option Factory) :
    (u.act (.acquire p item policy factory)).holders[k]? = some x := by
  have hsubject : (Act.acquire p item policy factory).subject? ≠ some k :=
    fun h => nomatch show none = some k from h
  have hacquires : (Act.acquire p item policy factory).acquires u k = false := by
    refine decide_eq_false fun hp => hk ?_
    rw [u.takeHolder_of_offered? hp]
  rw [u.holders_act _ hx, u.onHolder_of_ne x hsubject hacquires]

/-- The holders that an item acquires become a pair. -/
theorem Twin.acquire (ht : Twin ρ P u u') {g g' : Nat}
    (hx : (u.takeHolder p).1.holders[(u.takeHolder p).2.1]? =
      some { Holder.fresh p with generation := g })
    (hx' : (u'.takeHolder p).1.holders[(u'.takeHolder p).2.1]? =
      some { Holder.fresh p with generation := g' })
    (hholder : ρ.holder (u.takeHolder p).2.1 = (u'.takeHolder p).2.1)
    (hhandle : ∀ n, ρ.handle ⟨(u.takeHolder p).2.1, g + n⟩ = ⟨(u'.takeHolder p).2.1, g' + n⟩)
    (hne : ∀ k, P k → k ≠ (u.takeHolder p).2.1 ∧ ρ.holder k ≠ (u'.takeHolder p).2.1)
    (item : Shared Descriptor) (policy : Policy) (factory : Option Factory) :
    Twin ρ (fun k => P k ∨ k = (u.takeHolder p).2.1) (u.act (.acquire p item policy factory))
      (u'.act (.acquire p item policy factory)) where
  toAlike := (ht.toAlike.takeHolder p).modifyHolder ..
  holders := by
    rintro k (hk | rfl)
    · obtain ⟨x, g, hx, hx', hmade⟩ := ht.holders k hk
      obtain ⟨hne, hne'⟩ := hne k hk
      exact ⟨x, g, holders_acquire_of_ne hx hne item policy factory,
        holders_acquire_of_ne hx' hne' item policy factory, hmade⟩
    · refine ⟨{ Holder.fresh p with
        generation := g, state := Holder.State.configure {} item policy factory }, g', ?_, ?_, ?_⟩
      · rw [Store.act, configure, getElem?_modifyState, hx]
        simp [Holder.fresh]
      · rw [hholder, Store.act, configure, getElem?_modifyState, hx']
        simp [Holder.fresh]
      · intro n
        rw [hholder]
        exact hhandle n

end Store

namespace Session

variable {s s' t t' : Session} {i : Nat} {f : Frame}

/-- Two renamings do the same to all that a session refers to. -/
structure Agrees (s : Session) (ρ ρ' : Renaming) : Prop where
  holder : ∀ k, s.Refers k → ρ'.holder k = ρ.holder k
  handle : ∀ k g, s.Refers k → ρ'.handle ⟨k, g⟩ = ρ.handle ⟨k, g⟩
  bears : ∀ w, s.Bears w → ρ'.handle w = ρ.handle w

theorem Agrees.refl (s : Session) (ρ : Renaming) : s.Agrees ρ ρ :=
  ⟨fun _ _ => rfl, fun _ _ _ => rfl, fun _ _ => rfl⟩

theorem Twin.congr (h : s.Twin ρ s.Refers s') (ho : s.Regular) (ha : s.Agrees ρ ρ') :
    s.Twin ρ' s.Refers s' where
  inj a b hpa hpb hab := h.inj a b hpa hpb (by rwa [ha.holder a hpa, ha.holder b hpb] at hab)
  store := by
    refine ⟨⟨?_, h.store.gates, h.store.queues, h.store.capacities⟩, fun k hk => ?_⟩
    · rw [Store.engines_congr fun w hw => ha.bears w (.inr (.inl hw))]
      exact h.store.engines
    · exact (h.store.holders k hk).congr (ha.holder k hk) fun g => ha.handle k g hk
  registers := by
    have hhandles : s.registers.handles.mapValues ρ'.holder =
        s.registers.handles.mapValues ρ.holder :=
      Keyed.mapValues_congr fun e he => ha.holder _ (.inl ⟨e.1, Keyed.get?_of_mem he⟩)
    have hweaks : s.registers.weaks.mapValues ρ'.handle =
        s.registers.weaks.mapValues ρ.handle :=
      Keyed.mapValues_congr fun e he => ha.bears _ (.inl ⟨e.1, Keyed.get?_of_mem he⟩)
    rw [h.registers, Registers.rename, Registers.rename, hhandles, hweaks]
  count := h.count
  threads j := by
    have hstack {u : Thread} (hu : s.threads[j]? = some u) :
        u.stack.map (·.rename ρ') = u.stack.map (·.rename ρ) := by
      refine List.map_congr_left fun f hf => ?_
      cases hs : f.isServe with
      | true =>
          cases f with
          | serve q => rfl
          | _ => cases hs
      | false =>
          have hmem := mem_work_of_mem_stack hu hf hs
          exact Frame.rename_congr (ho.sound.frames j f hmem)
            (fun k hk => ha.holder k (.inr ⟨j, f, hmem, hk⟩))
            fun w hw => ha.bears w (.inr (.inr ⟨j, f, hmem, hw⟩))
    have ht := h.threads j
    revert ht
    cases hu : s.threads[j]? <;> cases s'.threads[j]? <;> intro ht <;> cases ht
    · exact .none
    · next u u' ht => exact .some ⟨(hstack hu).symm ▸ ht.stack, ht.reply⟩
  events := h.events
  scripts := h.scripts
  issuedItems := h.issuedItems
  issuedComponents := h.issuedComponents
  allocations := h.allocations

/-! ## Holders that are taken -/

theorem Regular.unused (ho : s.Regular) : s.store.Unused :=
  fun p h hi => (ho.rested.idle p h hi).fresh

/-- Nobody refers to the holder that an item acquires. -/
theorem Regular.not_refers_taken (ho : s.Regular) (p : Nat) :
    ¬ s.Refers (s.store.takeHolder p).2.1 := by
  intro hr
  cases hp : s.store.offered? p with
  | some k =>
      rw [s.store.takeHolder_of_offered? hp] at hr
      exact ho.not_refers_of_idles (.of_offered? _ hp) hr
  | none =>
      rw [s.store.takeHolder_of_not_offered? hp] at hr
      exact Nat.lt_irrefl _ (ho.lt_of_refers hr)

/-- Weak handles to the holder that an item acquires are of generations before. -/
theorem Regular.generation_lt (ho : s.Regular) {w : WeakHandle} (hw : s.Bears w) {p g : Nat}
    (hwh : w.holder = (s.store.takeHolder p).2.1)
    (hg : (s.store.takeHolder p).1.holders[(s.store.takeHolder p).2.1]? =
      some { Holder.fresh p with generation := g }) : w.generation < g := by
  cases hp : s.store.offered? p with
  | none =>
      rw [s.store.takeHolder_of_not_offered? hp] at hwh
      exact absurd hwh (Nat.ne_of_lt (ho.issued hw).lt)
  | some k =>
      rw [s.store.takeHolder_of_offered? hp] at hwh hg
      obtain rfl : w.holder = k := hwh
      obtain ⟨x, hx, hlt⟩ := ho.stale_of_idles hw (.of_offered? _ hp)
      obtain rfl := Option.some.inj (hx.symm.trans hg)
      exact hlt

/-- The renaming by which holders that items acquire in two sessions stand for each other. -/
theorem Mirrors.pair (hm : s.Mirrors ρ s') (ho : s.Regular) (ho' : s'.Regular) (p : Nat) :
    ∃ ρ', s.Agrees ρ ρ' ∧
      ρ'.holder (s.store.takeHolder p).2.1 = (s'.store.takeHolder p).2.1 ∧
      (∀ a b, s.Refers a ∨ a = (s.store.takeHolder p).2.1 →
        s.Refers b ∨ b = (s.store.takeHolder p).2.1 → ρ'.holder a = ρ'.holder b → a = b) ∧
      ∀ item policy factory, Store.Twin ρ'
        (fun k => s.Refers k ∨ k = (s.store.takeHolder p).2.1)
        (s.store.act (.acquire p item policy factory))
        (s'.store.act (.acquire p item policy factory)) := by
  obtain ⟨g, hg⟩ := Store.holders_takeHolder ho.unused p
  obtain ⟨g', hg'⟩ := Store.holders_takeHolder ho'.unused p
  have hfree' := ho'.not_refers_taken p
  have hne {k : Nat} (hk : s.Refers k) : k ≠ (s.store.takeHolder p).2.1 :=
    fun h => ho.not_refers_taken p (h ▸ hk)
  have hagrees :
      s.Agrees ρ (ρ.pair (s.store.takeHolder p).2.1 g (s'.store.takeHolder p).2.1 g') := by
    refine ⟨fun k hk => if_neg (hne hk), fun k n hk => if_neg fun h => hne hk h.1,
      fun w hw => if_neg fun h => ?_⟩
    have hlt := ho.generation_lt hw h.1 hg
    omega
  have htaken := hm.twin.congr ho hagrees
  generalize hpair : ρ.pair (s.store.takeHolder p).2.1 g (s'.store.takeHolder p).2.1 g' = ρ'
    at hagrees htaken
  have hholder : ρ'.holder (s.store.takeHolder p).2.1 = (s'.store.takeHolder p).2.1 := by
    rw [← hpair]
    exact if_pos rfl
  have hne' {k : Nat} (hk : s.Refers k) : ρ'.holder k ≠ (s'.store.takeHolder p).2.1 :=
    fun h => hfree' (h ▸ htaken.refers_iff.2 ⟨k, hk, rfl⟩)
  refine ⟨ρ', hagrees, hholder, ?_, ?_⟩
  · rintro a b (ha | rfl) (hb | rfl) hab
    · exact htaken.inj a b ha hb hab
    · exact absurd (hab.trans hholder) (hne' ha)
    · exact absurd (hab.symm.trans hholder) (hne' hb)
    · rfl
  · refine htaken.store.acquire hg hg' hholder (fun n => ?_) fun k hk => ⟨hne hk, hne' hk⟩
    rw [← hpair]
    exact Renaming.pair_handle ..

/-- The session in which an item has its holder and the holder was shown. -/
def acquired (s : Session) (i : Nat) (item : Shared Descriptor) (policy : Policy)
    (factory : Option Factory) (pool : String) (p : Nat) : Session :=
  Session.answerHolder (Session.write { s with
    namedShared := s.namedShared || pool = sharedName
    store := s.store.act (.acquire p item policy factory) }
    [Store.acquireLog item (s.store.takeHolder p).2.2]) i (s.store.takeHolder p).2.1

theorem stepCommand_acquire {name : String} {item : Shared Descriptor}
    {settings : List (Policy.Setting String)} {policy : Policy} {pool : String} {p : Nat}
    (hitem : s.item name = .ok item) (hpolicy : s.policy settings = .ok policy)
    (hp : s.pool pool = .ok p) (i : Nat) (factory : Option Factory) (into : Target) :
    s.stepCommand i (.acquire name settings factory pool into) =
      (s.acquired i item policy factory pool p).fill i into fun name =>
        (s.acquired i item policy factory pool p).setHandle name (s.store.takeHolder p).2.1 := by
  simp only [stepCommand, perform, acquire, usePool, hitem, hpolicy, hp, bind, Except.bind, pure,
    Except.pure]
  rfl

/-- An item that is not in trouble acquires a holder in both sessions. -/
theorem Mirrors.acquire (hm : s.Mirrors ρ s') (ho : s.Regular) (ho' : s'.Regular)
    {name : String} {item : Shared Descriptor} {settings : List (Policy.Setting String)}
    {policy : Policy} {pool : String} {p : Nat} (hitem : s.item name = .ok item)
    (hpolicy : s.policy settings = .ok policy) (hp : s.pool pool = .ok p)
    (i : Nat) (factory : Option Factory) (into : Target) :
    ∃ ρ', s.Agrees ρ ρ' ∧
      ((s.off i).stepCommand i (.acquire name settings factory pool into)).Twin ρ'
        (fun k => s.Refers k ∨ k = (s.store.takeHolder p).2.1)
        ((s'.off i).stepCommand i (.acquire name settings factory pool into)) := by
  obtain ⟨ρ', hagrees, hholder, hinj, hstore⟩ := hm.pair ho ho' p
  refine ⟨ρ', hagrees, ?_⟩
  have hitem' : (s'.off i).item name = .ok item := (congrFun hm.twin.item name).trans hitem
  have hpolicy' : (s'.off i).policy settings = .ok policy :=
    (congrFun hm.twin.policy settings).trans hpolicy
  have hp' : (s'.off i).pool pool = .ok p := (congrFun hm.twin.pool pool).trans hp
  have hoff := (hm.twin.congr ho hagrees).off i
  have hacquired : ((s.off i).acquired i item policy factory pool p).Twin ρ'
      (fun k => s.Refers k ∨ k = (s.store.takeHolder p).2.1)
      ((s'.off i).acquired i item policy factory pool p) := by
    unfold acquired
    refine hholder ▸ Twin.answerHolder (Twin.write ?_ _ _) (.inr rfl)
    exact { hoff with inj := hinj, store := hstore item policy factory }
  rw [stepCommand_acquire (s := s.off i) hitem hpolicy hp, stepCommand_acquire hitem' hpolicy' hp']
  refine hacquired.fill i fun name => ?_
  exact hholder ▸ hacquired.setHandle name (s.store.takeHolder p).2.1

end Session

end Recycler

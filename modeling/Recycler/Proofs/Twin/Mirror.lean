import Recycler.Proofs.Session.Dismissal
import Recycler.Proofs.Twin.Frame

/-!
# Sessions that mirror each other

A session mirrors another under a renaming if both are twins in all that is referred to, and a weak
handle is live in both or in neither. Then a frame that is carried on fits (`Mirrors.fits`), and the
same workers are in use (`Twin.mem_queuesInUse`).
-/

namespace Recycler

variable {ρ : Renaming} {P : Nat → Prop}

theorem Frame.handle?_rename (f : Frame) : (f.rename ρ).handle? = f.handle?.map ρ.handle := by
  cases f <;> rfl

/-- Idle holders are as new. -/
def Store.Unused (u : Store) : Prop :=
  ∀ p h, u.Idles p h → ∃ g, u.holders[h]? = some { Holder.fresh p with generation := g }

namespace Session

variable {s s' v v' : Session} {i j k : Nat} {f : Frame} {w : WeakHandle}

/-! ## Frames of twins -/

theorem Twin.stack (h : s.Twin ρ P s') (j : Nat) :
    s'.threads[j]?.map (·.stack) = s.threads[j]?.map fun t => t.stack.map (·.rename ρ) := by
  have ht := h.threads j
  revert ht
  cases s.threads[j]? <;> cases s'.threads[j]? <;> intro ht <;> cases ht
  · rfl
  · next t t' ht => exact congrArg some ht.stack

theorem Twin.stacks (h : s.Twin ρ P s') :
    s'.threads.map (·.stack) = s.threads.map fun t => t.stack.map (·.rename ρ) := by
  apply List.ext_getElem?
  intro j
  rw [List.getElem?_map, List.getElem?_map]
  exact h.stack j

theorem Twin.any_frame (h : s.Twin ρ P s') {p : Frame → Bool} (hp : ∀ f, p (f.rename ρ) = p f) :
    (s'.threads.any fun t => t.stack.any p) = s.threads.any fun t => t.stack.any p := by
  have hall (t : Session) (q : Frame → Bool) :
      (t.threads.any fun t => t.stack.any q) = (t.threads.map (·.stack)).any (·.any q) := by
    rw [List.any_map]
    rfl
  rw [hall, h.stacks, List.any_map]
  congr 1
  funext t
  rw [Function.comp_apply, List.any_map]
  congr 1
  funext f
  exact hp f

theorem Twin.work (h : s.Twin ρ P s') (j : Nat) : s'.work j = (s.work j).map (·.rename ρ) := by
  unfold Session.work
  rw [h.stack j]
  cases s.threads[j]? with
  | none => rfl
  | some t =>
      simp only [Option.map_some, Option.getD_some, List.filter_map, Function.comp_def,
        Frame.isServe_rename]

theorem Twin.top? (h : s.Twin ρ P s') (i : Nat) : s'.top? i = (s.top? i).map (·.rename ρ) := by
  have htop (t : Session) : t.top? i = (t.threads[i]?.map (·.stack)).bind List.head? := by
    unfold Session.top?
    cases t.threads[i]? <;> rfl
  rw [htop, htop, h.stack i]
  cases s.threads[i]? with
  | none => rfl
  | some t => simp [List.head?_map]

theorem Twin.isReleasing (h : s.Twin ρ P s') : s'.isReleasing = s.isReleasing :=
  h.any_frame fun f => f.isGiveBack_rename

/-! ## What twins refer to -/

theorem Twin.holds_iff (h : s.Twin ρ P s') : s'.Holds k ↔ ∃ l, s.Holds l ∧ ρ.holder l = k := by
  unfold Holds
  rw [h.registers, Registers.rename]
  simp only [Keyed.get?_mapValues, Option.map_eq_some_iff]
  constructor
  · rintro ⟨name, l, hl, rfl⟩
    exact ⟨l, ⟨name, hl⟩, rfl⟩
  · rintro ⟨l, ⟨name, hl⟩, rfl⟩
    exact ⟨name, l, hl, rfl⟩

theorem Twin.refers_iff (h : s.Twin ρ P s') : s'.Refers k ↔ ∃ l, s.Refers l ∧ ρ.holder l = k := by
  unfold Refers
  constructor
  · rintro (hk | ⟨j, g, hg, hk⟩)
    · obtain ⟨l, hl, rfl⟩ := h.holds_iff.1 hk
      exact ⟨l, .inl hl, rfl⟩
    · rw [h.work] at hg
      obtain ⟨f, hf, rfl⟩ := List.mem_map.1 hg
      rw [f.holder?_rename, Option.map_eq_some_iff] at hk
      obtain ⟨l, hl, rfl⟩ := hk
      exact ⟨l, .inr ⟨j, f, hf, hl⟩, rfl⟩
  · rintro ⟨l, hl | ⟨j, f, hf, hl⟩, rfl⟩
    · exact .inl (h.holds_iff.2 ⟨l, hl, rfl⟩)
    · refine .inr ⟨j, f.rename ρ, h.work j ▸ List.mem_map_of_mem hf, ?_⟩
      rw [f.holder?_rename, hl]
      rfl

theorem Twin.bears (h : s.Twin ρ P s') (hw : s.Bears w) : s'.Bears (ρ.handle w) := by
  rcases hw with ⟨name, hw⟩ | ⟨t, x, l, hx, hl, hw⟩ | ⟨j, f, hf, hw⟩
  · refine .inl ⟨name, ?_⟩
    rw [h.registers, Registers.rename]
    dsimp only
    rw [Keyed.get?_mapValues, hw]
    rfl
  · refine .inr (.inl ⟨t, x.rename ρ, l.rename ρ, ?_, ?_, ?_⟩)
    · rw [h.store.tree?, hx]
      rfl
    · exact congrArg (Option.map (·.rename ρ)) hl
    · exact congrArg (Option.map ρ.handle) hw
  · refine .inr (.inr ⟨j, f.rename ρ, h.work j ▸ List.mem_map_of_mem hf, ?_⟩)
    rw [f.handle?_rename, hw]
    rfl

/-- A handle that is live goes with a live one. -/
theorem Twin.live (h : s.Twin ρ P s') (hw : P w.holder) (hl : s.Live w) :
    (ρ.handle w).holder = ρ.holder w.holder ∧ s'.Live (ρ.handle w) := by
  obtain ⟨x, g, hx, rfl, hhandle⟩ := h.store.handle hw hl.2
  rw [hhandle]
  refine ⟨rfl, h.refers_iff.2 ⟨w.holder, hl.1, rfl⟩, ?_⟩
  rw [s'.store.isOfGeneration_eq (w := ⟨ρ.holder w.holder, x.generation⟩) hx]
  exact decide_eq_true rfl

/-- Two sessions do the same with different instances of holders. -/
structure Mirrors (ρ : Renaming) (s s' : Session) : Prop where
  twin : s.Twin ρ s.Refers s'
  /-- No weak handle comes to life in one session only. -/
  live : ∀ w, s.Bears w → s'.Live (ρ.handle w) → s.Live w

theorem Mirrors.faithful (hm : s.Mirrors ρ s') (ho : s.Regular) (ho' : s'.Regular)
    (hv : v.Twin ρ s.Refers v') (hstore : v.store = s.store) (hstore' : v'.store = s'.store)
    (hsub : ∀ k, v.Refers k → s.Refers k) (hw : s.Bears w) : Faithful ρ s.Refers v v' w := by
  have hstale : ∀ p, v.store.Idles p w.holder → v.store.Stale w := by
    rw [hstore]
    exact fun p hi => ho.stale_of_idles hw hi
  have hstale' : ∀ p, v'.store.Idles p (ρ.handle w).holder → v'.store.Stale (ρ.handle w) := by
    rw [hstore']
    exact fun p hi => ho'.stale_of_idles (hm.twin.bears hw) hi
  have hlive (hl : v'.Live (ρ.handle w)) : v.Live w := by
    obtain ⟨k, hk, hholder⟩ := hv.refers_iff.1 hl.1
    have hl' : s'.Live (ρ.handle w) :=
      ⟨hm.twin.refers_iff.2 ⟨k, hsub k hk, hholder⟩, hstore' ▸ hl.2⟩
    have hs := hm.live w hw hl'
    obtain ⟨hsame, -⟩ := hm.twin.live hs.1 hs
    obtain rfl := hv.inj k w.holder (hsub k hk) hs.1 (hholder.trans hsame)
    exact ⟨hk, hstore ▸ hs.2⟩
  have hpaired (k : Nat) (hk : v.resolve? w = some k) : s.Refers k := by
    obtain ⟨rfl, hl⟩ := (resolve?_eq_some_iff hstale).1 hk
    exact hsub _ hl.1
  refine ⟨?_, hpaired⟩
  cases hr : v.resolve? w with
  | none =>
      refine Option.eq_none_iff_forall_ne_some.2 fun k hk => ?_
      have hl := hlive ((resolve?_eq_some_iff hstale').1 hk).2
      rw [(resolve?_eq_some_iff hstale).2 ⟨rfl, hl⟩] at hr
      cases hr
  | some k =>
      obtain ⟨rfl, hl⟩ := (resolve?_eq_some_iff hstale).1 hr
      obtain ⟨hsame, hl'⟩ := hv.live (hsub _ hl.1) hl
      exact (resolve?_eq_some_iff hstale').2 ⟨hsame, hl'⟩

/-- A frame fits in sessions that mirror each other, unless it is an item's that acquires a
holder. -/
theorem Mirrors.fits (hm : s.Mirrors ρ s') (ho : s.Regular) (ho' : s'.Regular)
    (hf : s.top? i = some f)
    (hc : ∀ item settings factory pool into,
      f ≠ .command (.acquire item settings factory pool into)) :
    f.Fits ρ s.Refers i (s.off i) (s'.off i) := by
  have hoff := hm.twin.off i
  have hsub (k : Nat) (hk : (s.off i).Refers k) : s.Refers k := refers_of_off hf hk
  have hself (k : Nat) (hk : f.holder? = some k) : s.Refers k := refers_of_holder? hf hk
  have hbears {w : WeakHandle} (hw : f.handle? = some w) : s.Bears w := by
    refine .inr (.inr ⟨i, f, mem_work_of_top? hf ?_, hw⟩)
    cases f with
    | serve q => cases hw
    | _ => rfl
  cases f with
  | command c =>
      refine ⟨fun k hk => .inl hk, fun w hw => ?_, fun item settings factory pool into h => ?_⟩
      · exact hm.faithful ho ho' hoff rfl rfl hsub (.inl hw)
      · exact hc item settings factory pool into (congrArg _ h)
  | factory maker w => exact hm.faithful ho ho' hoff rfl rfl hsub (hbears rfl)
  | claimTree call item component handle listener =>
      obtain ⟨hcall, -⟩ := ho.sound.top hf
      have hf' : s'.top? i =
          some ((Frame.claimTree call item component handle listener).rename ρ) := by
        rw [hm.twin.top?, hf]
        rfl
      obtain ⟨hcall', -⟩ := ho'.sound.top hf'
      have hrefers : s.Refers handle.holder := hcall ▸ hself _ rfl
      have hrefers' : s'.Refers (ρ.handle handle).holder :=
        hcall' ▸ hm.twin.refers_iff.2 ⟨_, hself _ rfl, rfl⟩
      refine ⟨hself _ rfl, hcall, hcall', Bool.eq_iff_iff.2 ⟨fun hgen => ?_, fun hgen => ?_⟩⟩
      · exact (hm.live handle (hbears rfl) ⟨hrefers', hgen⟩).2
      · exact (hm.twin.live hrefers ⟨hrefers, hgen⟩).2.2
  | layout l sequel stage =>
      cases stage with
      | notifyMeasured size ready =>
          intro w hw
          have hpushed := hoff.push i [.layout l sequel (.notifyReady size ready)]
          refine hm.faithful ho ho' hpushed rfl rfl (fun k hk => ?_) (.inr (.inl hw))
          rcases hk with hk | ⟨j, g, hg, hk⟩
          · exact .inl hk
          · rcases mem_work_push hg with hg | hg
            · obtain rfl := List.mem_singleton.1 hg
              refine hself k (Eq.trans ?_ hk)
              cases sequel <;> rfl
            · exact hsub k (.inr ⟨j, g, hg, hk⟩)
      | _ => exact hself
  | _ => exact hself

/-! ## Workers -/

/-- A holder with something that a new one does not have exists only if somebody refers to it. -/
theorem isAlive_iff {x : Holder} (hu : s.store.Unused) (hx : s.store.holders[k]? = some x)
    (hstate : x.state ≠ {}) : s.isAlive k ↔ s.Refers k := by
  unfold isAlive
  rw [Bool.or_eq_true, decide_eq_true_eq, references_pos_iff]
  constructor
  · rintro (hr | hi)
    · exact hr
    · obtain ⟨p, hp⟩ := idles_of_isIdle hi
      obtain ⟨g, hg⟩ := hu p k hp
      obtain rfl := Option.some.inj (hx.symm.trans hg)
      exact absurd rfl hstate
  · exact .inl

/-- The holders with something that a new one does not have stand for each other. -/
theorem Twin.exists_holder (h : s.Twin ρ s.Refers s') (hu : s.store.Unused)
    (hu' : s'.store.Unused) {p : Holder.State → Prop} (hp : ¬ p {}) :
    (∃ k x, s'.store.holders[k]? = some x ∧ s'.isAlive k ∧ p x.state) ↔
      ∃ k x, s.store.holders[k]? = some x ∧ s.isAlive k ∧ p x.state := by
  have hstate {x : Holder} (hx : p x.state) : x.state ≠ {} := fun he => hp (he ▸ hx)
  constructor
  · rintro ⟨k', x', hx', halive, hpx⟩
    obtain ⟨k, hk, rfl⟩ := h.refers_iff.1 ((isAlive_iff hu' hx' (hstate hpx)).1 halive)
    obtain ⟨x, g, hx, hy', -⟩ := h.store.holders k hk
    obtain rfl := Option.some.inj (hx'.symm.trans hy')
    exact ⟨k, x, hx, (isAlive_iff hu hx (hstate hpx)).2 hk, hpx⟩
  · rintro ⟨k, x, hx, halive, hpx⟩
    have hk := (isAlive_iff hu hx (hstate hpx)).1 halive
    obtain ⟨y, g, hy, hx', -⟩ := h.store.holders k hk
    obtain rfl := Option.some.inj (hx.symm.trans hy)
    exact ⟨_, _, hx', (isAlive_iff hu' hx' (hstate hpx)).2 (h.refers_iff.2 ⟨k, hk, rfl⟩), hpx⟩

theorem Twin.refersToEngine (h : s.Twin ρ P s') (e : Nat) :
    s'.refersToEngine e = s.refersToEngine e := by
  have hframes := h.any_frame (p := fun f => f.engine? = some e) fun f => by
    rw [f.engine?_rename]
  unfold Session.refersToEngine
  rw [hframes, h.registers]
  rfl

theorem Twin.refersToTree (h : s.Twin ρ s.Refers s') (hu : s.store.Unused)
    (hu' : s'.store.Unused) (t : TreeRef) : s'.refersToTree t = s.refersToTree t := by
  have hholders : (s'.store.holders.zipIdx.any fun x => x.1.state.slot.tree? = some t &&
      s'.isAlive x.2) = s.store.holders.zipIdx.any fun x => x.1.state.slot.tree? = some t &&
      s.isAlive x.2 := by
    have hiff := h.exists_holder hu hu' (p := fun state => state.slot.tree? = some t) nofun
    rw [Bool.eq_iff_iff, any_zipIdx_iff, any_zipIdx_iff]
    simpa only [Bool.and_eq_true, decide_eq_true_eq, and_comm] using hiff
  have hframes := h.any_frame (p := fun f => f.tree? = some t) fun f => by
    rw [f.tree?_rename]
  unfold Session.refersToTree
  rw [h.refersToEngine, hholders, hframes, h.store.queues]

/-- Policies with an executor are the same in twins. -/
theorem Twin.mem_policies (h : s.Twin ρ s.Refers s') (hu : s.store.Unused)
    (hu' : s'.store.Unused) {policy : Policy} (hp : policy ≠ {}) :
    policy ∈ s'.policies ↔ policy ∈ s.policies := by
  have hholders := h.exists_holder hu hu' (p := fun state => state.policy = policy) fun he =>
    hp (Eq.symm he)
  rw [mem_policies_iff, mem_policies_iff]
  refine or_congr hholders ⟨?_, ?_⟩
  · rintro ⟨t, tree', htree, hrefers, rfl⟩
    rw [h.store.tree?, Option.map_eq_some_iff] at htree
    obtain ⟨tree, htree, rfl⟩ := htree
    rw [h.refersToTree hu hu'] at hrefers
    exact ⟨t, tree, htree, hrefers, rfl⟩
  · rintro ⟨t, tree, htree, hrefers, rfl⟩
    rw [← h.refersToTree hu hu'] at hrefers
    refine ⟨t, tree.rename ρ, ?_, hrefers, rfl⟩
    rw [h.store.tree?, htree]
    rfl

/-- The same workers are in use. -/
theorem Twin.mem_queuesInUse (h : s.Twin ρ s.Refers s') (hu : s.store.Unused)
    (hu' : s'.store.Unused) (q : Nat) : q ∈ s'.queuesInUse ↔ q ∈ s.queuesInUse := by
  have hframes := h.any_frame (p := fun f => f.busy? = some q) fun f => by rw [f.busy?_rename]
  rw [mem_queuesInUse_iff, mem_queuesInUse_iff, hframes, h.registers]
  refine or_congr Iff.rfl (or_congr (exists_congr fun policy => ?_) Iff.rfl)
  refine and_congr_left fun hq => h.mem_policies hu hu' ?_
  rintro rfl
  obtain ⟨e, he, -⟩ := hq
  cases he

end Session

end Recycler

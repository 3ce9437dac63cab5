import Recycler.Proofs.Store.Handle

/-!
# How trees come and go

A holder gets its trees one after the other, and gives up each of them before it gets the next.
`builtFor` lists the trees that were built for it and `freedBy` those that it released, the oldest
first in both. They differ by the tree that is in use (`builtFor_eq`).

Since a new tree was never there before, no tree occurs twice in these lists, nor in those of two
holders. `Custody` says what this comes to for the trees of a store.
-/

namespace Recycler.Store

/-- What goes into a tree that is built by the second step of a request, or was to be built. -/
def Claim.config? : Claim → Option Tree.Config
  | .built config _ => some config
  | .refused config => some config
  | _ => none

/-- The tree that an act builds for a holder, and what goes into it. -/
def Act.supplies? (s : Store) (h : Nat) : Act → Option (Tree.Config × TreeRef)
  | .claimTree call item component handle listener =>
    match (s.claimTree call item component handle listener).2 with
    | .built config t => if call.holder = h then some (config, t) else none
    | _ => none
  | _ => none

/-- The tree that a holder releases in an act. -/
def Act.frees? (s : Store) (h : Nat) (a : Act) : Option TreeRef :=
  if a.vacates h then s.live? h else none

/-- The tree that the holder which an act is about asks for something, be it to go. -/
def Act.callee? (s : Store) : Act → Option TreeRef
  | .evict h => s.live? h
  | .reset h => s.live? h
  | .setReadyListener h _ => s.live? h
  | .reportWindow h _ _ => s.live? h
  | .claimTree call item component handle listener =>
    ((Act.claimTree call item component handle listener).supplies? s call.holder).map (·.2)
  | _ => none

/-- The trees that are built for a holder, in their order. -/
def builtFor (h : Nat) (s : Store) : List Act → List TreeRef
  | [] => []
  | a :: as => ((a.supplies? s h).map (·.2)).toList ++ builtFor h (s.act a) as

/-- The trees that a holder releases, in their order. -/
def freedBy (h : Nat) (s : Store) : List Act → List TreeRef
  | [] => []
  | a :: as => (a.frees? s h).toList ++ freedBy h (s.act a) as

variable {s : Store} {a : Act} {as bs cs : List Act} {h k : Nat} {t : TreeRef} {x : Holder}
  {config : Tree.Config}

theorem builtFor_append :
    builtFor h s (as ++ bs) = builtFor h s as ++ builtFor h (s.acts as) bs := by
  induction as generalizing s with
  | nil => rfl
  | cons a as ih => rw [List.cons_append, builtFor, builtFor, ih, List.append_assoc, acts_cons]

theorem builtFor_of_not_builds (has : ∀ a ∈ as, a.builds = false) : builtFor h s as = [] := by
  induction as generalizing s with
  | nil => rfl
  | cons a as ih =>
      have hnone : a.supplies? s h = none := by
        cases a with
        | claimTree => cases has _ List.mem_cons_self
        | _ => rfl
      rw [builtFor, hnone, ih fun b hb => has b (List.mem_cons_of_mem _ hb)]
      rfl

theorem freedBy_append :
    freedBy h s (as ++ bs) = freedBy h s as ++ freedBy h (s.acts as) bs := by
  induction as generalizing s with
  | nil => rfl
  | cons a as ih => rw [List.cons_append, freedBy, freedBy, ih, List.append_assoc, acts_cons]

/-! ## Claims -/

section Claims

variable {call : Call} {item : Shared Descriptor} {component : Component} {handle : WeakHandle}
  {listener : Option MeasureListener} {engine : Engine}

/-- A claim for a holder that has no tree asks the engine for one. -/
theorem snd_claimTree_of_vacant (hx : s.holders[call.holder]? = some x)
    (he : s.engines[call.engine]? = some engine) (hg : x.generation = handle.generation)
    (ht : x.state.slot.tree? = none) :
    (s.claimTree call item component handle listener).2 =
      if engine.refuses then .refused (treeConfig x.state item component listener)
      else .built (treeConfig x.state item component listener)
        ⟨call.engine, engine.trees.length⟩ := by
  unfold claimTree
  simp only [hx, he, ht, if_pos hg]
  split <;> rfl

/-- An engine is asked for a tree only if the holder has none and was not released. -/
theorem exists_of_config?_claimTree
    (hc : (s.claimTree call item component handle listener).2.config? = some config) :
    ∃ x engine, s.holders[call.holder]? = some x ∧ s.engines[call.engine]? = some engine ∧
      x.generation = handle.generation ∧ x.state.slot.tree? = none ∧
      config = treeConfig x.state item component listener := by
  unfold claimTree at hc
  split at hc
  · next x engine hx he =>
      split at hc
      · next hg =>
          split at hc
          · cases hc
          · next ht =>
              refine ⟨x, engine, hx, he, hg, ht, ?_⟩
              dsimp only at hc
              split at hc <;> exact (Option.some.inj hc).symm
      · cases hc
  · cases hc

theorem claimTree_eq_of_supplies? (ha : a.supplies? s h = some (config, t)) :
    ∃ call item component handle listener, a = .claimTree call item component handle listener ∧
      call.holder = h ∧
      (s.claimTree call item component handle listener).2 = .built config t := by
  cases a with
  | claimTree call item component handle listener =>
      rw [Act.supplies?] at ha
      split at ha
      · next config' t' hclaim =>
          split at ha
          · next hh =>
              cases ha
              exact ⟨call, item, component, handle, listener, rfl, hh, hclaim⟩
          · cases ha
      · cases ha
  | _ => cases ha

/-- A tree is built for a holder that has none, as the next tree of an engine. -/
theorem exists_of_supplies? (ha : a.supplies? s h = some (config, t)) :
    ∃ call item component handle listener x engine,
      a = .claimTree call item component handle listener ∧ call.holder = h ∧
      s.holders[h]? = some x ∧ s.engines[call.engine]? = some engine ∧
      x.generation = handle.generation ∧ x.state.slot.tree? = none ∧ engine.refuses = false ∧
      config = treeConfig x.state item component listener ∧
      t = ⟨call.engine, engine.trees.length⟩ := by
  obtain ⟨call, item, component, handle, listener, rfl, rfl, hclaim⟩ := claimTree_eq_of_supplies? ha
  obtain ⟨x, engine, hx, he, hg, ht, -⟩ :=
    exists_of_config?_claimTree (congrArg Claim.config? hclaim)
  rw [snd_claimTree_of_vacant hx he hg ht] at hclaim
  split at hclaim
  · cases hclaim
  · next hr =>
      cases hclaim
      exact ⟨call, item, component, handle, listener, x, engine, rfl, rfl, hx, he, hg, ht,
        by simpa using hr, rfl, rfl⟩

end Claims

/-- A tree is built only for a holder that has none, is new, and is the holder's from then on. -/
theorem live?_of_supplies? (ha : a.supplies? s h = some (config, t)) :
    s.live? h = none ∧ ¬ s.Built t ∧ (s.act a).live? h = some t := by
  obtain ⟨call, item, component, handle, listener, x, engine, rfl, rfl, hx, he, hg, ht, hr, -,
    rfl⟩ := exists_of_supplies? ha
  refine ⟨(s.live?_eq hx).trans ht, s.not_built_next he, ?_⟩
  rw [(s.act _).live?_eq (s.holders_act _ hx), Act.onHolder, if_pos ⟨rfl, hg, ht⟩, supplied, he]
  simp [hr, Holder.State.adopt, Slot.tree?]

/-- The tree that was built, as it is at first. -/
theorem tree?_of_supplies? (ha : a.supplies? s h = some (config, t)) :
    ∃ tree, (s.act a).tree? t = some tree ∧ tree.released = false ∧
      tree.state = config.snapshot.getD .empty ∧ tree.config = config ∧
      ∀ x, s.holders[h]? = some x → tree.readyListener = x.state.readyListener := by
  obtain ⟨call, item, component, handle, listener, x, engine, rfl, rfl, hx, he, hg, ht, hr, rfl,
    rfl⟩ := exists_of_supplies? ha
  have hnew := s.not_built_next he
  rw [Built, Bool.not_eq_true, Option.isSome_eq_false_iff, Option.isNone_iff_eq_none] at hnew
  rw [act, s.tree?_claimTree_of_vacant item component listener hx he hg ht, hnew, Option.none_or,
    if_pos ⟨hr, rfl⟩]
  refine ⟨_, rfl, rfl, rfl, rfl, fun y hy => ?_⟩
  rw [Option.some.inj (hy.symm.trans hx)]

theorem supplies?_of_live (hl : s.live? h = some t) : a.supplies? s h = none := by
  cases ha : a.supplies? s h with
  | none => rfl
  | some supply =>
      rw [(live?_of_supplies? ha).1] at hl
      cases hl

/-- A holder that has no tree has one after an act only if the act built it. -/
theorem live?_act_of_none (hl : s.live? h = none) :
    (s.act a).live? h = (a.supplies? s h).map (·.2) := by
  cases ha : a.supplies? s h with
  | some supply =>
      obtain ⟨config, t⟩ := supply
      exact (live?_of_supplies? ha).2.2
  | none =>
      refine Option.eq_none_iff_forall_not_mem.2 fun t ht => ?_
      obtain ⟨hnew, hbuilt, call, item, component, handle, listener, rfl, rfl⟩ :=
        s.live?_act_of_vacant hl ht
      by_cases hv : ∃ x engine, s.holders[call.holder]? = some x ∧
          s.engines[call.engine]? = some engine ∧ x.generation = handle.generation ∧
          x.state.slot.tree? = none
      · obtain ⟨x, engine, hx, he, hg, hn⟩ := hv
        rw [Act.supplies?, snd_claimTree_of_vacant hx he hg hn] at ha
        cases hr : engine.refuses with
        | false => simp [hr] at ha
        | true =>
            rw [Built, act, s.tree?_claimTree_of_vacant item component listener hx he hg hn]
              at hbuilt
            simp only [hr, Bool.true_eq_false, false_and, if_false, Option.or_none] at hbuilt
            exact hnew hbuilt
      · rw [act, s.claimTree_of_not_vacant item component listener
          fun x engine hx he hg hn => hv ⟨x, engine, hx, he, hg, hn⟩] at hbuilt
        exact hnew hbuilt

/-! ## The trees of a holder -/

/-- What a holder had and gets is what it gives up and has then. -/
theorem toList_live?_act (s : Store) (a : Act) (h : Nat) :
    (s.live? h).toList ++ ((a.supplies? s h).map (·.2)).toList =
      (a.frees? s h).toList ++ ((s.act a).live? h).toList := by
  cases hl : s.live? h with
  | none =>
      have hnone : a.frees? s h = none := by rw [Act.frees?, hl, ite_self]
      rw [live?_act_of_none hl, hnone]
  | some t =>
      rw [supplies?_of_live hl, s.live?_act_of_live a hl, Act.frees?, hl]
      cases a.vacates h <;> rfl

theorem builtFor_eq (s : Store) (as : List Act) (h : Nat) :
    (s.live? h).toList ++ builtFor h s as = freedBy h s as ++ ((s.acts as).live? h).toList := by
  induction as generalizing s with
  | nil => rw [builtFor, freedBy, acts_nil, List.append_nil, List.nil_append]
  | cons a as ih =>
      rw [builtFor, ← List.append_assoc, toList_live?_act, List.append_assoc, ih, freedBy,
        List.append_assoc, acts_cons]

theorem exists_of_mem_builtFor (ht : t ∈ builtFor h s as) :
    ∃ bs a cs config, as = bs ++ a :: cs ∧ a.supplies? (s.acts bs) h = some (config, t) := by
  induction as generalizing s with
  | nil => cases ht
  | cons a as ih =>
      rcases List.mem_append.1 ht with ht | ht
      · obtain ⟨⟨config, t⟩, hs, rfl⟩ := Option.map_eq_some_iff.1 (Option.mem_toList.1 ht)
        exact ⟨[], a, as, config, rfl, hs⟩
      · obtain ⟨bs, b, cs, config, rfl, hs⟩ := ih ht
        exact ⟨a :: bs, b, cs, config, rfl, hs⟩

theorem built_acts (hb : s.Built t) (as : List Act) : (s.acts as).Built t :=
  acts_induction (P := (·.Built t)) (fun s a hb => hb.act s a) hb as

/-- Trees that are built were not there before. -/
theorem built_of_mem_builtFor (ht : t ∈ builtFor h s as) : ¬ s.Built t ∧ (s.acts as).Built t := by
  obtain ⟨bs, a, cs, config, rfl, hs⟩ := exists_of_mem_builtFor ht
  obtain ⟨tree, htree, -⟩ := tree?_of_supplies? hs
  refine ⟨fun hb => (live?_of_supplies? hs).2.1 (built_acts hb bs), ?_⟩
  rw [acts_append, acts_cons]
  exact built_acts ((built_iff _).2 ⟨tree, htree⟩) cs

theorem nodup_builtFor (s : Store) (as : List Act) (h : Nat) : (builtFor h s as).Nodup := by
  induction as generalizing s with
  | nil => exact List.nodup_nil
  | cons a as ih =>
      refine List.nodup_append.2 ⟨?_, ih (s.act a), ?_⟩
      · cases (a.supplies? s h).map (·.2) <;> simp
      · rintro t ht u hu rfl
        obtain ⟨⟨config, t⟩, hs, rfl⟩ := Option.map_eq_some_iff.1 (Option.mem_toList.1 ht)
        obtain ⟨tree, htree, -⟩ := tree?_of_supplies? hs
        exact (built_of_mem_builtFor hu).1 ((s.act a).built_iff.2 ⟨tree, htree⟩)

/-- No tree is built for two holders. -/
theorem eq_of_mem_builtFor (hh : t ∈ builtFor h s as) (hk : t ∈ builtFor k s as) : h = k := by
  induction as generalizing s with
  | nil => cases hh
  | cons a as ih =>
      have hbuilt {j : Nat} (hj : t ∈ ((a.supplies? s j).map (·.2)).toList) :
          (s.act a).Built t ∧ ∃ config, a.supplies? s j = some (config, t) := by
        obtain ⟨⟨config, t⟩, hs, rfl⟩ := Option.map_eq_some_iff.1 (Option.mem_toList.1 hj)
        obtain ⟨tree, htree, -⟩ := tree?_of_supplies? hs
        exact ⟨(s.act a).built_iff.2 ⟨tree, htree⟩, config, hs⟩
      rcases List.mem_append.1 hh with hh | hh <;> rcases List.mem_append.1 hk with hk | hk
      · -- both got it by this act, which is a claim of one holder
        obtain ⟨-, config, hh⟩ := hbuilt hh
        obtain ⟨-, config', hk⟩ := hbuilt hk
        obtain ⟨call, _, _, _, _, rfl, rfl, -⟩ := claimTree_eq_of_supplies? hh
        obtain ⟨call', _, _, _, _, ha, rfl, -⟩ := claimTree_eq_of_supplies? hk
        cases ha
        rfl
      · exact absurd (hbuilt hh).1 (built_of_mem_builtFor hk).1
      · exact absurd (hbuilt hk).1 (built_of_mem_builtFor hh).1
      · exact ih hh hk

theorem live?_of_frees? (ha : a.frees? s h = some t) : s.live? h = some t ∧ a.vacates h := by
  rw [Act.frees?] at ha
  split at ha
  · next hv => exact ⟨ha, hv⟩
  · cases ha

/-! ## Released trees -/

/-- A tree is released by its holder, or by somebody who has got hold of it. -/
theorem released_onTree (a : Act) (x : Tree) :
    (a.onTree s t x).released ↔
      x.released ∨ (∃ k, a.frees? s k = some t) ∨ a = .changeTree t .release := by
  cases a with
  | evict h =>
      by_cases hl : s.live? h = some t <;>
        simp_all [Act.onTree, Act.frees?, Act.vacates, Tree.release]
  | reset h =>
      by_cases hl : s.live? h = some t <;>
        simp_all [Act.onTree, Act.frees?, Act.vacates, Tree.release]
  | setReadyListener | reportWindow | settleLayout =>
      simp only [Act.onTree, Act.frees?, Act.vacates]
      split <;> simp [Tree.setReadyListener, Tree.reportWindow, Tree.commit]
  | changeTree u c =>
      by_cases hu : u = t
      · subst hu
        cases c <;> simp [Act.onTree, Act.frees?, Act.vacates, Tree.change, Tree.release,
          Tree.setReadyListener, Tree.reportWindow, Tree.mount, Tree.update]
      · simp [Act.onTree, Act.frees?, Act.vacates, hu]
  | _ => simp [Act.onTree, Act.frees?, Act.vacates]

theorem released_acts {x : Tree} (hx : s.tree? t = some x) (as : List Act) :
    ∃ y, (s.acts as).tree? t = some y ∧
      (y.released ↔ x.released ∨ (∃ k, t ∈ freedBy k s as) ∨ .changeTree t .release ∈ as) := by
  induction as generalizing s x with
  | nil => exact ⟨x, hx, by simp [freedBy]⟩
  | cons a as ih =>
      obtain ⟨y, hy, hreleased⟩ := ih (s.tree?_act a hx)
      rw [released_onTree] at hreleased
      refine ⟨y, hy, hreleased.trans ⟨fun h => ?_, fun h => ?_⟩⟩
      · rcases h with (h | ⟨k, hk⟩ | rfl) | ⟨k, hk⟩ | h
        · exact .inl h
        · exact .inr (.inl ⟨k, List.mem_append_left _ (Option.mem_toList.2 hk)⟩)
        · exact .inr (.inr List.mem_cons_self)
        · exact .inr (.inl ⟨k, List.mem_append_right _ hk⟩)
        · exact .inr (.inr (List.mem_cons_of_mem _ h))
      · rcases h with h | ⟨k, hk⟩ | h
        · exact .inl (.inl h)
        · rcases List.mem_append.1 hk with hk | hk
          · exact .inl (.inr (.inl ⟨k, Option.mem_toList.1 hk⟩))
          · exact .inr (.inl ⟨k, hk⟩)
        · rcases List.mem_cons.1 h with h | h
          · exact .inl (.inr (.inr h.symm))
          · exact .inr (.inr h)

/-- An act that asks a tree for nothing leaves it as it is, a layout or a change from outside
apart. -/
theorem onTree_of_callee?_ne {x : Tree} (ha : a.callee? s ≠ some t)
    (hc : ∀ c, a ≠ .changeTree t c) :
    (a.onTree s t x).windows = x.windows ∧ (a.onTree s t x).readyListener = x.readyListener ∧
      (a.onTree s t x).released = x.released := by
  cases a with
  | evict | reset | setReadyListener | reportWindow =>
      rw [Act.callee?] at ha
      rw [Act.onTree, if_neg ha]
      exact ⟨rfl, rfl, rfl⟩
  | settleLayout l size =>
      rw [Act.onTree]
      split <;> exact ⟨rfl, rfl, rfl⟩
  | changeTree u c =>
      rw [Act.onTree, if_neg fun hu => hc c (by rw [hu])]
      exact ⟨rfl, rfl, rfl⟩
  | _ => exact ⟨rfl, rfl, rfl⟩

/-- Nobody asks a tree that is in no use for anything. -/
theorem Retired.callee?_ne (hr : s.Retired t) : a.callee? s ≠ some t := by
  cases a with
  | evict h => exact (hr h).2
  | reset h => exact (hr h).2
  | setReadyListener h l => exact (hr h).2
  | reportWindow h position w => exact (hr h).2
  | claimTree call item component handle listener =>
      intro hc
      obtain ⟨⟨config, t⟩, hs, rfl⟩ := Option.map_eq_some_iff.1 hc
      exact (live?_of_supplies? hs).2.1 (hr call.holder).1
  | _ => exact fun hc => nomatch hc

/-! ## Stores from their beginning -/

theorem live?_empty (h : Nat) : ({} : Store).live? h = none := rfl

theorem owned_acts (as : List Act) : (({} : Store).acts as).Owned :=
  acts_induction (fun _ a ho => ho.act a) ⟨nofun, nofun⟩ as

/-- The trees built for a holder are those that it released, and the one that it has in use. -/
theorem builtFor_eq_freedBy_append (as : List Act) (h : Nat) :
    builtFor h {} as = freedBy h {} as ++ ((({} : Store).acts as).live? h).toList := by
  rw [← builtFor_eq, live?_empty]
  rfl

theorem builtFor_eq_freedBy (hl : (({} : Store).acts as).live? h = none) :
    builtFor h {} as = freedBy h {} as := by
  rw [builtFor_eq_freedBy_append, hl]
  exact List.append_nil _

theorem mem_builtFor_of_mem_freedBy (ht : t ∈ freedBy h {} as) : t ∈ builtFor h {} as := by
  rw [builtFor_eq_freedBy_append]
  exact List.mem_append_left _ ht

/-- A tree in use was built for its holder, and nobody released it. -/
theorem of_live?_acts (hl : (({} : Store).acts as).live? h = some t) :
    t ∈ builtFor h {} as ∧ ∀ k, t ∉ freedBy k {} as := by
  have heq := builtFor_eq_freedBy_append as h
  rw [hl] at heq
  have hmem : t ∈ builtFor h {} as := by
    rw [heq]
    exact List.mem_append_right _ List.mem_cons_self
  refine ⟨hmem, fun k hk => ?_⟩
  obtain rfl : h = k := eq_of_mem_builtFor hmem (mem_builtFor_of_mem_freedBy hk)
  have hnodup := nodup_builtFor {} as h
  rw [heq] at hnodup
  exact (List.nodup_append.1 hnodup).2.2 t hk t List.mem_cons_self rfl

/-- A tree built for a holder that is not in use there was released by the holder, once, and by
nobody else. -/
theorem of_mem_builtFor (ht : t ∈ builtFor h {} as)
    (hl : (({} : Store).acts as).live? h ≠ some t) :
    (freedBy h {} as).count t = 1 ∧ ∀ k, k ≠ h → t ∉ freedBy k {} as := by
  have hcount := (nodup_builtFor {} as h).count (a := t)
  rw [if_pos ht, builtFor_eq_freedBy_append, List.count_append,
    List.count_eq_zero.2 (fun hmem => hl (Option.mem_toList.1 hmem)), Nat.add_zero] at hcount
  exact ⟨hcount, fun k hk hmem =>
    hk (eq_of_mem_builtFor (mem_builtFor_of_mem_freedBy hmem) ht)⟩

/-- A tree that was built for a holder is released if the holder did it, and otherwise only if
somebody else did. -/
theorem released_of_mem_builtFor (ht : t ∈ builtFor h {} as) :
    ∃ tree, (({} : Store).acts as).tree? t = some tree ∧ (t ∈ freedBy h {} as → tree.released) ∧
      (tree.released → t ∈ freedBy h {} as ∨ .changeTree t .release ∈ as) := by
  obtain ⟨bs, a, cs, config, rfl, hs⟩ := exists_of_mem_builtFor ht
  obtain ⟨hvacant, hnew, -⟩ := live?_of_supplies? hs
  obtain ⟨x, hx, hfresh, -⟩ := tree?_of_supplies? hs
  obtain ⟨y, hy, hreleased⟩ := released_acts hx cs
  have hlater : freedBy h {} (bs ++ a :: cs) =
      freedBy h {} bs ++ freedBy h ((({} : Store).acts bs).act a) cs := by
    have hnone : a.frees? (({} : Store).acts bs) h = none := by rw [Act.frees?, hvacant, ite_self]
    rw [freedBy_append, freedBy, hnone]
    rfl
  have hbefore : t ∉ freedBy h {} bs := fun hmem =>
    hnew (built_of_mem_builtFor (mem_builtFor_of_mem_freedBy hmem)).2
  refine ⟨y, by rw [acts_append, acts_cons, hy], fun hf => ?_, fun hr => ?_⟩
  · rw [hlater] at hf
    exact hreleased.2 (.inr (.inl ⟨h, (List.mem_append.1 hf).resolve_left hbefore⟩))
  · rcases hreleased.1 hr with h' | ⟨k, hk⟩ | h'
    · rw [hfresh] at h'
      cases h'
    · left
      have hmem : t ∈ freedBy k {} (bs ++ a :: cs) := by
        rw [freedBy_append, freedBy]
        exact List.mem_append_right _ (List.mem_append_right _ hk)
      obtain rfl := eq_of_mem_builtFor ht (mem_builtFor_of_mem_freedBy hmem)
      exact hmem
    · exact .inr (List.mem_append_right _ (List.mem_cons_of_mem _ h'))

/-- A tree that was released and that no holder has in use. -/
def Discarded (s : Store) (t : TreeRef) : Prop :=
  (∃ tree, s.tree? t = some tree ∧ tree.released) ∧ ∀ k, s.live? k ≠ some t

theorem discarded_of_mem_freedBy (ht : t ∈ freedBy h {} as) :
    (({} : Store).acts as).Discarded t := by
  obtain ⟨tree, htree, hreleased, -⟩ := released_of_mem_builtFor (mem_builtFor_of_mem_freedBy ht)
  exact ⟨⟨tree, htree, hreleased ht⟩, fun k hk => (of_live?_acts hk).2 h ht⟩

/-- What becomes of the trees of holders in a history from the beginning, at each of its acts. -/
structure Custody (as : List Act) : Prop where
  /-- A tree is built only while the holder has none, and is a new one. -/
  vacant : ∀ bs a cs h config t, as = bs ++ a :: cs →
    a.supplies? (({} : Store).acts bs) h = some (config, t) →
      (({} : Store).acts bs).live? h = none ∧ ¬ (({} : Store).acts bs).Built t ∧
        ((({} : Store).acts bs).act a).live? h = some t
  /-- No two holders have the same tree. -/
  single : ∀ bs h k t, bs <+: as → (({} : Store).acts bs).live? h = some t →
    (({} : Store).acts bs).live? k = some t → h = k
  /-- A tree that was built for a holder is in use there and nobody released it, or it is in use
  nowhere and the holder released it once. -/
  fate : ∀ bs h t, bs <+: as → t ∈ builtFor h {} bs →
    ((({} : Store).acts bs).live? h = some t ∧ ∀ k, t ∉ freedBy k {} bs) ∨
      ((∀ k, (({} : Store).acts bs).live? k ≠ some t) ∧ (freedBy h {} bs).count t = 1 ∧
        ∀ k, k ≠ h → t ∉ freedBy k {} bs)
  /-- The tree answers as a released one accordingly, unless somebody else released it. -/
  released : ∀ bs h t, bs <+: as → t ∈ builtFor h {} bs →
    ∃ tree, (({} : Store).acts bs).tree? t = some tree ∧
      (t ∈ freedBy h {} bs → tree.released) ∧
        (tree.released → t ∈ freedBy h {} bs ∨ .changeTree t .release ∈ bs)
  /-- A tree that a holder released is never in use again, and no holder asks it for anything. -/
  gone : ∀ bs a cs b ds h t, as = bs ++ a :: (cs ++ b :: ds) →
    a.frees? (({} : Store).acts bs) h = some t →
      (∀ k, (({} : Store).acts (bs ++ a :: cs)).live? k ≠ some t) ∧
        (∀ k, (({} : Store).acts (bs ++ a :: (cs ++ [b]))).live? k ≠ some t) ∧
        b.callee? (({} : Store).acts (bs ++ a :: cs)) ≠ some t
  /-- Nor does a holder show in it, in what was reported to it or in its listener. -/
  untouched : ∀ bs a cs b ds h t x, as = bs ++ a :: (cs ++ b :: ds) →
    a.frees? (({} : Store).acts bs) h = some t → (∀ c, b ≠ .changeTree t c) →
      (({} : Store).acts (bs ++ a :: cs)).tree? t = some x →
        ∃ y, (({} : Store).acts (bs ++ a :: (cs ++ [b]))).tree? t = some y ∧
          y.windows = x.windows ∧ y.readyListener = x.readyListener ∧ y.released = x.released
  /-- When a holder was released just now, all its trees are. -/
  reset : ∀ bs cs h, as = bs ++ .reset h :: cs →
    builtFor h {} (bs ++ [.reset h]) = freedBy h {} (bs ++ [.reset h])
  count : ∀ bs h, bs <+: as → (builtFor h {} bs).length =
    (freedBy h {} bs).length + if ((({} : Store).acts bs).live? h).isSome then 1 else 0

theorem fate_of_mem_builtFor (ht : t ∈ builtFor h {} as) :
    ((({} : Store).acts as).live? h = some t ∧ ∀ k, t ∉ freedBy k {} as) ∨
      ((∀ k, (({} : Store).acts as).live? k ≠ some t) ∧ (freedBy h {} as).count t = 1 ∧
        ∀ k, k ≠ h → t ∉ freedBy k {} as) := by
  by_cases hl : (({} : Store).acts as).live? h = some t
  · exact .inl ⟨hl, (of_live?_acts hl).2⟩
  · refine .inr ⟨fun k hk => ?_, of_mem_builtFor ht hl⟩
    obtain rfl := eq_of_mem_builtFor (of_live?_acts hk).1 ht
    exact hl hk

theorem custody (as : List Act) : Custody as := by
  have hretired {bs cs : List Act} {a : Act} {h : Nat} {t : TreeRef}
      (hf : a.frees? (({} : Store).acts bs) h = some t) :
      (({} : Store).acts (bs ++ a :: cs)).Retired t := by
    obtain ⟨hl, hv⟩ := live?_of_frees? hf
    rw [acts_append, acts_cons]
    exact acts_induction (P := (·.Retired t)) (fun _ a hr => hr.act a)
      ((owned_acts bs).retired hl hv) cs
  constructor
  · rintro bs a cs h config t - hs
    exact live?_of_supplies? hs
  · rintro bs h k t - hh hk
    exact (owned_acts bs).unique h k t hh hk
  · rintro bs h t - ht
    exact fate_of_mem_builtFor ht
  · rintro bs h t - ht
    exact released_of_mem_builtFor ht
  · rintro bs a cs b ds h t - hf
    exact ⟨fun k => (hretired hf k).2, fun k => (hretired hf k).2, (hretired hf).callee?_ne⟩
  · rintro bs a cs b ds h t x - hf hc hx
    have hr : (({} : Store).acts (bs ++ a :: cs)).Retired t := hretired hf
    refine ⟨_, ?_, onTree_of_callee?_ne hr.callee?_ne hc⟩
    rw [← List.cons_append, ← List.append_assoc, acts_append, acts_cons, acts_nil]
    exact tree?_act _ b hx
  · rintro bs cs h -
    refine builtFor_eq_freedBy ?_
    rw [acts_append]
    exact live?_reset _ h
  · rintro bs h -
    rw [builtFor_eq_freedBy_append, List.length_append]
    cases (({} : Store).acts bs).live? h <;> rfl

end Recycler.Store

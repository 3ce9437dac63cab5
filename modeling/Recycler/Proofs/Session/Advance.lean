import Recycler.Proofs.Session.Turn

/-!
# Every step is a turn

The turns of all commands and frames, and `turn_of_advance?`.
-/

namespace Recycler.Session

variable {s s' s'' : Session} {i : Nat} {f : Frame}

theorem ok_of_bind {ε α β : Type} {x : Except ε α} {g : α → Except ε β} {b : β}
    (h : (x >>= g) = .ok b) : ∃ a, x = .ok a ∧ g a = .ok b := by
  cases x with
  | error e => cases h
  | ok a => exact ⟨a, rfl, h⟩

theorem eq_some_of_need {α : Type} {field : String} {value : Option α} {a : α}
    (h : need field value = .ok a) : value = some a := by
  cases value with
  | none => cases h
  | some b => rw [Except.ok.inj h]

theorem holds_of_holder {name : String} {h : Nat} (hh : s.holder name = .ok h) : s.Holds h :=
  ⟨name, eq_some_of_need hh⟩

theorem built_of_treeRef {engine : String} {index : Option Nat} {t : TreeRef}
    (ht : s.treeRef engine index = .ok t) : s.store.Built t := by
  obtain ⟨e, -, ht⟩ := ok_of_bind ht
  have hsome := eq_some_of_need ht
  split at hsome
  · next hlt =>
      obtain rfl := Option.some.inj hsome
      cases he : s.store.engines[e]? with
      | none => simp [he] at hlt
      | some engine =>
          simp only [he, Option.map_some, Option.getD_some] at hlt
          simp [Store.Built, Store.tree?, he, hlt]
  · cases hsome

/-! ## Registers and threads -/

theorem Turn.setHandle (ht : Turn s i f s') (name : String) {h : Nat}
    (hh : s.Holds h ∨
      (∃ p item policy factory, Store.Act.acquire p item policy factory ∈ s.frameActs i f ∧
        h = (s.store.takeHolder p).2.1) ∨
      ∃ w, s.Keeps w ∧ s.resolve? w = some h) : Turn s i f (s'.setHandle name h) where
  store := ht.store
  count := ht.count
  goesOn := ht.goesOn
  others := ht.others
  handles k hk := by
    obtain ⟨n, hn⟩ := hk
    rw [Session.setHandle, modifyRegisters, Keyed.get?_put] at hn
    split at hn
    · obtain rfl := Option.some.inj hn
      exact hh
    · exact ht.handles k ⟨n, hn⟩
  weaks := ht.weaks
  items := ht.items

theorem Turn.eraseHandle (ht : Turn s i f s') (name : String) :
    Turn s i f (s'.modifyRegisters fun r => { r with handles := r.handles.erase name }) where
  store := ht.store
  count := ht.count
  goesOn := ht.goesOn
  others := ht.others
  handles k hk := by
    obtain ⟨n, hn⟩ := hk
    rw [modifyRegisters, Keyed.get?_erase] at hn
    split at hn
    · cases hn
    · exact ht.handles k ⟨n, hn⟩
  weaks := ht.weaks
  items := ht.items

theorem Turn.setWeak {c : Command} (ht : Turn s i (.command c) s') (name : String) {h : Nat}
    {x : Holder} (hh : s.Holds h) (hx : s.store.holders[h]? = some x) :
    Turn s i (.command c)
      (s'.modifyRegisters fun r => { r with weaks := r.weaks.put name (x.downgrade h) }) where
  store := ht.store
  count := ht.count
  goesOn := ht.goesOn
  others := ht.others
  handles := ht.handles
  weaks w hw := by
    obtain ⟨n, hn⟩ := hw
    rw [modifyRegisters, Keyed.get?_put] at hn
    split at hn
    · exact .inr ⟨c, h, x, rfl, hh, hx, (Option.some.inj hn).symm⟩
    · exact ht.weaks w ⟨n, hn⟩
  items := ht.items

theorem Turn.issueItem (ht : Turn s i f s') (hissued : s'.issuedItems = s.issuedItems)
    (hknows : ∀ item, s'.Knows item → s.Knows item) (into : String) {item : Shared Descriptor}
    (hitem : item.number = s.issuedItems) : Turn s i f (s'.issueItem into item) where
  store := ht.store
  count := ht.count
  goesOn := ht.goesOn
  others := ht.others
  handles := ht.handles
  weaks := ht.weaks
  items := by
    refine .inr ⟨congrArg (· + 1) hissued, item, hitem, fun other hother => ?_⟩
    obtain ⟨n, hn⟩ := hother
    rw [Session.issueItem, Keyed.get?_put] at hn
    split at hn
    · exact .inr (Option.some.inj hn).symm
    · exact .inl (hknows other ⟨n, hn⟩)

theorem work_start (s : Session) (fs : List Frame) (j : Nat) :
    (s.start fs).work j =
      if j = s.threads.length then fs.filter fun f => !f.isServe else s.work j := by
  rw [start, work, work, List.getElem?_append]
  by_cases hj : j < s.threads.length
  · rw [if_pos hj, if_neg (Nat.ne_of_lt hj)]
  · rw [if_neg hj]
    by_cases heq : j = s.threads.length
    · simp [heq]
    · rw [if_neg heq, List.getElem?_eq_none (Nat.not_lt.1 hj), List.getElem?_eq_none]
      simp only [List.length_singleton]
      omega

theorem Turn.start (ht : Turn s i f s') (hi : i < s.threads.length) {fs : List Frame}
    (hfs : fs.filter (fun f => !f.isServe) = [] ∨
      ∃ c, fs.filter (fun f => !f.isServe) = [.command c, .conclude]) :
    Turn s i f (s'.start fs) where
  store := ht.store
  count := Nat.le_trans ht.count (by simp [Session.start])
  goesOn := by
    rw [work_start, if_neg (Nat.ne_of_lt (Nat.lt_of_lt_of_le hi ht.count))]
    exact ht.goesOn
  others j hj := by
    rw [work_start]
    split
    · next heq =>
        have hnone : s.work j = [] := work_of_length_le (heq ▸ ht.count)
        rcases hfs with hfs | hfs
        · exact .inl (hfs.trans hnone.symm)
        · exact .inr ⟨hnone, hfs⟩
    · exact ht.others j hj
  handles := ht.handles
  weaks := ht.weaks
  items := ht.items

/-! ## Commands about holders and pools -/

theorem turn_performOnHolder {name : String} {c : HolderCommand} (hi : i < s.threads.length)
    (h : s.performOnHolder i name c = .ok s') : Turn s i (.command (.onHolder name c)) s' := by
  obtain ⟨k, hk, h⟩ := ok_of_bind h
  have hσ : s.store.acts (s.frameActs i (.command (.onHolder name c))) =
      s.store.acts (s.holderActs k c) := by
    rw [frameActs_command, commandActs_onHolder hk]
  cases c with
  | clone into =>
      obtain rfl := Except.ok.inj h
      exact ((Turn.act hσ).setHandle into (.inl (holds_of_holder hk))).like (like_answer _ _ _)
  | release =>
      obtain rfl := Except.ok.inj h
      exact (Turn.push hi hσ (.release (eq_some_of_need hk)) rfl).eraseHandle name
  | print =>
      obtain ⟨x, -, h⟩ := ok_of_bind h
      obtain rfl := Except.ok.inj h
      exact (Turn.act hσ).like (like_answer _ _ _)
  | view =>
      obtain rfl := Except.ok.inj h
      exact (Turn.act hσ).like (like_answerHolder _ _ _)
  | downgrade into =>
      obtain ⟨x, hx, h⟩ := ok_of_bind h
      obtain rfl := Except.ok.inj h
      exact ((Turn.act hσ).setWeak into (holds_of_holder hk) (eq_some_of_need hx)).like
        (like_answer _ _ _)
  | describe item =>
      obtain ⟨item, hitem, h⟩ := ok_of_bind h
      obtain rfl := Except.ok.inj h
      rw [holderActs, hitem] at hσ
      exact (Turn.act hσ).like (like_answer _ _ _)
  | _ =>
      obtain rfl := Except.ok.inj h
      exact (Turn.act hσ).like (like_answer _ _ _)

theorem turn_makePool (into : String) (capacity : UInt64) :
    Turn s i (.command (.pool into capacity)) (s.makePool i into capacity) := by
  have hσ := congrArg s.store.acts (s.commandActs_pool into capacity)
  unfold makePool
  generalize Pool.new? capacity = pool at hσ ⊢
  cases pool with
  | none => exact Turn.panic hσ (.refl _) _
  | some pool =>
      generalize s.registers.pools.get? into = old at hσ ⊢
      cases old with
      | none =>
          refine Turn.like ?_ (like_answer _ _ _)
          exact (Turn.act hσ).like ⟨rfl, rfl, fun _ => rfl, rfl, rfl, rfl, rfl⟩
      | some p =>
          refine Turn.like ?_ (like_answer _ _ _)
          exact (Turn.act hσ).like ⟨rfl, rfl, fun _ => rfl, rfl, rfl, rfl, rfl⟩

theorem turn_dropPool (name : String) :
    Turn s i (.command (.dropPool name)) (s.dropPool i name) := by
  have hσ : s.store.acts (s.frameActs i (.command (.dropPool name))) =
      s.store.acts ((s.registers.pools.get? name).map .dropPool).toList := rfl
  unfold dropPool
  generalize s.registers.pools.get? name = old at hσ ⊢
  cases old with
  | none => exact (Turn.act hσ).like (like_answer _ _ _)
  | some p =>
      refine Turn.like ?_ (like_answer _ _ _)
      exact (Turn.act hσ).like ⟨rfl, rfl, fun _ => rfl, rfl, rfl, rfl, rfl⟩

theorem of_usePool {name : String} {p : Nat} (h : s.usePool name = .ok (s', p)) :
    s.pool name = .ok p ∧ s' = { s with namedShared := s.namedShared || name = sharedName } := by
  obtain ⟨p', hp, heq⟩ := ok_of_bind h
  obtain ⟨rfl, rfl⟩ := Prod.mk.inj (Except.ok.inj heq)
  exact ⟨hp, rfl⟩

theorem turn_performOnPool {name : String} {c : PoolCommand}
    (h : s.performOnPool i name c = .ok s') : Turn s i (.command (.onPool name c)) s' := by
  obtain ⟨⟨s₁, p⟩, huse, h⟩ := ok_of_bind h
  obtain ⟨hp, rfl⟩ := of_usePool huse
  cases c with
  | view =>
      obtain ⟨pool, -, h⟩ := ok_of_bind h
      obtain rfl := Except.ok.inj h
      refine Turn.like ?_ (like_answer _ _ _)
      exact (Turn.idle rfl).like ⟨rfl, rfl, fun _ => rfl, rfl, rfl, rfl, rfl⟩
  | clear =>
      obtain rfl := Except.ok.inj h
      have hσ : s.store.acts (s.frameActs i (.command (.onPool name .clear))) =
          s.store.modifyPool p Pool.clear := by
        rw [frameActs_command, commandActs_clearPool hp]
        rfl
      refine Turn.like ?_ (like_answer _ _ _)
      exact (Turn.act hσ).like ⟨rfl, rfl, fun _ => rfl, rfl, rfl, rfl, rfl⟩

theorem turn_acquire {item : String} {settings : List (Policy.Setting String)}
    {factory : Option Factory} {pool : String} {into : Target}
    (h : s.acquire i item settings factory pool into = .ok s') :
    Turn s i (.command (.acquire item settings factory pool into)) s' := by
  obtain ⟨descriptor, hitem, h⟩ := ok_of_bind h
  obtain ⟨policy, hpolicy, h⟩ := ok_of_bind h
  obtain ⟨⟨s₁, p⟩, huse, h⟩ := ok_of_bind h
  obtain ⟨hp, rfl⟩ := of_usePool huse
  obtain rfl := Except.ok.inj h
  have hacts : s.frameActs i (.command (.acquire item settings factory pool into)) =
      [.acquire p descriptor policy factory] := by
    rw [frameActs_command, commandActs_acquire hitem hpolicy hp]
  have hσ := congrArg s.store.acts hacts
  cases into with
  | none =>
      refine Turn.like ?_ (like_answer _ _ _)
      refine Turn.like ?_ (like_answerHolder _ _ _)
      refine Turn.like ?_ (like_write _ _)
      exact (Turn.act hσ).like ⟨rfl, rfl, fun _ => rfl, rfl, rfl, rfl, rfl⟩
  | some name =>
      have hmem : Store.Act.acquire p descriptor policy factory ∈
          s.frameActs i (.command (.acquire item settings factory pool (some name))) := by
        rw [hacts]
        exact List.mem_singleton_self _
      refine Turn.setHandle ?_ name (.inr (.inl ⟨p, descriptor, policy, factory, hmem, rfl⟩))
      refine Turn.like ?_ (like_answerHolder _ _ _)
      refine Turn.like ?_ (like_write _ _)
      exact (Turn.act hσ).like ⟨rfl, rfl, fun _ => rfl, rfl, rfl, rfl, rfl⟩

theorem turn_requestLayout {bounds : Bounds} {engine tag handle : String} {background : Bool}
    (hi : i < s.threads.length)
    (h : s.requestLayout i bounds engine tag handle background = .ok s') :
    Turn s i (.command (.layout bounds engine tag handle background)) s' := by
  obtain ⟨e, -, h⟩ := ok_of_bind h
  obtain ⟨k, hk, h⟩ := ok_of_bind h
  obtain rfl := Except.ok.inj h
  exact Turn.push (t := s.store) hi rfl (.request _ (holds_of_holder hk)) rfl

theorem turn_dropHandle (name : String) :
    Turn s i (.command (.dropHandle name)) (s.dropHandle i name) :=
  ((Turn.idle rfl).eraseHandle name).like (like_answer _ _ _)

theorem turn_upgrade {weak : String} {into : Option Target}
    (h : s.upgrade i weak into = .ok s') : Turn s i (.command (.upgrade weak into)) s' := by
  obtain ⟨w, hw, h⟩ := ok_of_bind h
  have hkeeps : s.Keeps w := ⟨weak, eq_some_of_need hw⟩
  split at h
  · obtain rfl := Except.ok.inj h
    exact (Turn.idle rfl).like (like_answer _ _ _)
  · next k hk =>
      have hshown : Turn s i (.command (.upgrade weak into))
          ((s.showHolder k).1.answer i (.count (s.showHolder k).2)) :=
        (Turn.idle rfl).like ((s.like_showHolder k).trans (like_answer _ _ _))
      cases into with
      | none =>
          obtain rfl := Except.ok.inj h
          exact hshown
      | some target =>
          obtain rfl := Except.ok.inj h
          cases target with
          | none => exact hshown.like (like_answer _ _ _)
          | some name => exact hshown.setHandle name (.inr (.inr ⟨w, hkeeps, hk⟩))

theorem turn_writeHeight {weak : String} {height : Int32}
    (h : s.writeHeight i weak height = .ok s') :
    Turn s i (.command (.writeHeight weak height)) s' := by
  obtain ⟨w, hw, h⟩ := ok_of_bind h
  split at h
  · next hres =>
      obtain rfl := Except.ok.inj h
      have hidle : s.frameActs i (.command (.writeHeight weak height)) = [] := by
        simp [commandActs_writeHeight hw, hres]
      exact (Turn.idle hidle).like (like_answer _ _ _)
  · next k hres =>
      obtain rfl := Except.ok.inj h
      have hσ : s.store.acts (s.frameActs i (.command (.writeHeight weak height))) =
          s.store.writeHeight w height := by
        simp [commandActs_writeHeight hw, hres, Store.act]
      exact (Turn.act hσ).like (like_answer _ _ _)

/-! ## Commands about engines and trees -/

theorem turn_setGate {gate : Option String} {engine : String}
    (h : s.setGate i gate engine = .ok s') : Turn s i (.command (.setGate gate engine)) s' := by
  obtain ⟨g, hg, h⟩ := ok_of_bind h
  obtain ⟨e, he, h⟩ := ok_of_bind h
  obtain rfl := Except.ok.inj h
  have hσ : s.store.acts (s.frameActs i (.command (.setGate gate engine))) =
      s.store.modifyEngine e ({ · with gate := g }) := by
    rw [frameActs_command, commandActs_setGate hg he]
    rfl
  exact (Turn.act hσ).like (like_answer _ _ _)

theorem turn_openGate {name : String} (h : s.openGate i name = .ok s') :
    Turn s i (.command (.openGate name)) s' := by
  obtain ⟨g, hg, h⟩ := ok_of_bind h
  obtain rfl := Except.ok.inj h
  have hσ : s.store.acts (s.frameActs i (.command (.openGate name))) =
      s.store.modifyGate g Gate.openUp := by
    rw [frameActs_command, commandActs_openGate hg]
    rfl
  exact (Turn.act hσ).like (like_answer _ _ _)

theorem turn_viewGate {name : String} (h : s.viewGate i name = .ok s') :
    Turn s i (.command (.viewGate name)) s' := by
  obtain ⟨g, -, h⟩ := ok_of_bind h
  obtain ⟨gate, -, h⟩ := ok_of_bind h
  obtain rfl := Except.ok.inj h
  exact (Turn.idle rfl).like (like_answer _ _ _)

theorem turn_makeGate (into : String) :
    Turn s i (.command (.gate into)) (s.makeGate i into) := by
  refine Turn.like ?_ (like_answer _ _ _)
  exact (Turn.act rfl).like ⟨rfl, rfl, fun _ => rfl, rfl, rfl, rfl, rfl⟩

theorem turn_makeEngine (into : String) (measure : Measure) (manner : Engine.Manner) :
    Turn s i (.command (.engine into measure manner)) (s.makeEngine i into measure manner) := by
  refine Turn.like ?_ (like_answer _ _ _)
  exact (Turn.act rfl).like ⟨rfl, rfl, fun _ => rfl, rfl, rfl, rfl, rfl⟩

theorem turn_performOnEngine {name : String} {c : EngineCommand}
    (h : s.performOnEngine i name c = .ok s') : Turn s i (.command (.onEngine name c)) s' := by
  obtain ⟨e, he, h⟩ := ok_of_bind h
  have hσ : s.store.acts (s.frameActs i (.command (.onEngine name c))) =
      s.store.acts (s.engineActs e c) := by
    rw [frameActs_command, commandActs_onEngine he]
  cases c with
  | view =>
      obtain ⟨engine, -, h⟩ := ok_of_bind h
      obtain rfl := Except.ok.inj h
      exact (Turn.act hσ).like (like_answer _ _ _)
  | arm reason =>
      obtain rfl := Except.ok.inj h
      exact (Turn.act hσ).like (like_answer _ _ _)
  | refuseNext =>
      obtain ⟨engine, hengine, h⟩ := ok_of_bind h
      split at h
      · next hr =>
          obtain rfl := Except.ok.inj h
          simp only [engineActs, eq_some_of_need hengine, hr, if_true] at hσ
          exact (Turn.act hσ).like (like_answer _ _ _)
      · cases h
  | viewContext tag =>
      obtain rfl := Except.ok.inj h
      exact (Turn.act hσ).like (like_answer _ _ _)
  | build component settings snapshot clipsChildren wasMounted listener =>
      obtain ⟨root, hroot, h⟩ := ok_of_bind h
      obtain ⟨policy, hpolicy, h⟩ := ok_of_bind h
      obtain ⟨engine, hengine, h⟩ := ok_of_bind h
      simp only [engineActs, hroot, hpolicy, eq_some_of_need hengine] at hσ
      let config : Tree.Config :=
        let listener := listener.map (·.withoutHolder)
        { root, policy, snapshot, clipsChildren, wasMounted, listener }
      have hreport := like_reportBuilding s e config
      split at h
      · next hr =>
          obtain rfl := Except.ok.inj h
          rw [if_pos hr] at hσ
          have hrefused := hreport.modifyStore (·.modifyEngine e ({ · with refuses := false }))
          exact Turn.panic hσ hrefused _
      · next hr =>
          obtain rfl := Except.ok.inj h
          rw [if_neg hr] at hσ
          refine Turn.like ?_ (like_answer _ _ _)
          exact (Turn.act hσ).like (hreport.modifyStore (·.modifyEngine e (·.build config)))

theorem ensues_handOver {l : Layout} (c : Command) (hl : s.store.Built l.tree) :
    Ensues s (.command c) (handOverFrames s.store l) ∧
      (handOverFrames s.store l).filter (fun f => !f.isServe) = handOverFrames s.store l := by
  unfold handOverFrames
  split
  · exact ⟨.nothing rfl, rfl⟩
  · exact ⟨.background c hl, rfl⟩

theorem turn_layoutTree {bounds : Bounds} {component : String} {props : Option (Shared Props)}
    {engine : String} {index : Option Nat} {background : Bool} (hi : i < s.threads.length)
    (h : s.layoutTree i bounds component props engine index background = .ok s') :
    Turn s i (.command (.layoutTree bounds component props engine index background)) s' := by
  obtain ⟨root, hroot, h⟩ := ok_of_bind h
  obtain ⟨tree, htree, h⟩ := ok_of_bind h
  have hbuilt := built_of_treeRef htree
  cases background with
  | false =>
      obtain rfl := Except.ok.inj h
      exact Turn.push (t := s.store) hi rfl
        (.reply (l := { tree, root, bounds, props }) _ hbuilt) rfl
  | true =>
      obtain rfl := Except.ok.inj h
      have hσ : s.store.acts (s.frameActs i
          (.command (.layoutTree bounds component props engine index true))) =
            s.store.acts (handOverActs s.store { tree, root, bounds, props }) := by
        rw [frameActs_command, commandActs_layoutTree hroot htree]
      obtain ⟨hfs, hserve⟩ := ensues_handOver (l := { tree, root, bounds, props })
        (.layoutTree bounds component props engine index true) hbuilt
      rw [handOver_eq, List.append_nil]
      exact (Turn.push hi hσ hfs hserve).like ((like_answer _ i .done).push i _)

theorem turn_performOnTree {engine : String} {index : Option Nat} {c : TreeCommand}
    (h : s.performOnTree i engine index c = .ok s') :
    Turn s i (.command (.onTree engine index c)) s' := by
  obtain ⟨t, ht, h⟩ := ok_of_bind h
  obtain ⟨tree, -, h⟩ := ok_of_bind h
  have hσ : s.store.acts (s.frameActs i (.command (.onTree engine index c))) =
      s.store.acts (treeActs t c) := by
    rw [frameActs_command, commandActs_onTree ht]
  cases c with
  | _ =>
      obtain rfl := Except.ok.inj h
      exact (Turn.act hσ).like (like_answer _ _ _)

/-! ## Other commands -/

theorem number_of_carriedItem? {sec : Section} {context : Section.Context} {n k : Nat}
    {item : Shared Descriptor} (h : carriedItem? (sec.render context n k).edits = some item) :
    item.number = n := by
  unfold Section.render carriedItem? at h
  split at h
  · cases h
  · split at h
    · obtain rfl := Option.some.inj h
      rfl
    · split at h
      · obtain rfl := Option.some.inj h
        rfl
      · cases h

theorem turn_makeItem {into : String} {source : Source} {settings : List Descriptor.Setting}
    (h : s.makeItem i into source settings = .ok s') :
    Turn s i (.command (.item into source settings)) s' := by
  obtain ⟨content, -, h⟩ := ok_of_bind h
  obtain rfl := Except.ok.inj h
  refine Turn.like ?_ (like_answer _ _ _)
  exact (Turn.idle rfl).issueItem rfl (fun _ hk => hk) into rfl

theorem turn_renderSection {component : Diff String} {sticky : Diff Bool}
    {spanSize : Diff UInt32} {fullSpan : Diff Bool} {context : Section.Context} {into : Target}
    (h : s.renderSection i component sticky spanSize fullSpan context into = .ok s') :
    Turn s i (.command (.section component sticky spanSize fullSpan context into)) s' := by
  obtain ⟨previous, -, h⟩ := ok_of_bind h
  obtain ⟨next, -, h⟩ := ok_of_bind h
  let sec : Section := { component := ⟨previous, next⟩, sticky, spanSize, fullSpan }
  let outcome := sec.render context s.issuedItems s.allocations
  have hwritten : Turn s i (.command (.section component sticky spanSize fullSpan context into))
      { s.write outcome.log with allocations := s.allocations + 1 } :=
    (Turn.idle rfl).like ⟨rfl, rfl, fun _ => rfl, rfl, rfl, rfl, rfl⟩
  dsimp only at h
  split at h
  · next item hitem =>
      obtain rfl := Except.ok.inj h
      cases into with
      | none => exact hwritten.like (like_answer _ _ _)
      | some name =>
          refine Turn.like ?_ (like_answer _ _ _)
          exact hwritten.issueItem rfl (fun _ hk => hk) name (number_of_carriedItem? hitem)
  · obtain rfl := Except.ok.inj h
    exact hwritten.like (like_answer _ _ _)

theorem turn_makeExecutor (hi : i < s.threads.length) (into : String) (style : Executor.Style) :
    Turn s i (.command (.executor into style)) (s.makeExecutor i into style) := by
  cases style with
  | inline =>
      refine Turn.like ?_ (like_answer _ _ _)
      exact (Turn.idle rfl).like ⟨rfl, rfl, fun _ => rfl, rfl, rfl, rfl, rfl⟩
  | manual =>
      refine Turn.like ?_ (like_answer _ _ _)
      exact (Turn.act rfl).like ⟨rfl, rfl, fun _ => rfl, rfl, rfl, rfl, rfl⟩
  | worker =>
      refine Turn.like ?_ (like_answer _ _ _)
      have hqueue : Turn s i (.command (.executor into .worker))
          (s.modifyStore (·.act (.addQueue { name := into, hasWorker := true }))) := Turn.act rfl
      have hserve : [Frame.serve s.store.queues.length].filter (fun f => !f.isServe) = [] := rfl
      have hstart := hqueue.start hi (.inl hserve)
      exact hstart.like ⟨rfl, rfl, fun _ => rfl, rfl, rfl, rfl, rfl⟩

theorem turn_runWaiting {executor : String} {count : Option Nat} (hi : i < s.threads.length)
    (h : s.runWaiting i executor count = .ok s') :
    Turn s i (.command (.runWaiting executor count)) s' := by
  obtain ⟨q, -, h⟩ := ok_of_bind h
  obtain rfl := Except.ok.inj h
  exact Turn.push (t := s.store) hi rfl (.runWaiting _ q count) rfl

theorem turn_spawn (hi : i < s.threads.length) (c : Command) (into : Target) :
    Turn s i (.command (.spawn c into)) (s.spawn i c into) := by
  have hstart : Turn s i (.command (.spawn c into)) (s.start [.command c, .conclude]) :=
    (Turn.idle rfl).start hi (.inr ⟨c, rfl⟩)
  cases into with
  | none => exact hstart.like (like_answer _ _ _)
  | some name =>
      refine Turn.like ?_ (like_answer _ _ _)
      exact hstart.like ⟨rfl, rfl, fun _ => rfl, rfl, rfl, rfl, rfl⟩

theorem turn_join {job : String} (h : s.join i job = .ok s') :
    Turn s i (.command (.join job)) s' := by
  obtain ⟨j, -, h⟩ := ok_of_bind h
  obtain ⟨thread, -, h⟩ := ok_of_bind h
  obtain rfl := Except.ok.inj h
  exact (Turn.idle rfl).like (like_answer _ _ _)

theorem turn_perform {c : Command} (hi : i < s.threads.length) (h : s.perform i c = .ok s') :
    Turn s i (.command c) s' := by
  cases c with
  | component into name equivalence =>
      obtain rfl := Except.ok.inj h
      refine Turn.like ?_ (like_answer _ _ _)
      exact (Turn.idle rfl).like ⟨rfl, rfl, fun _ => rfl, rfl, rfl, rfl, rfl⟩
  | item into source settings => exact turn_makeItem h
  | «section» component sticky spanSize fullSpan context into => exact turn_renderSection h
  | executor into style =>
      obtain rfl := Except.ok.inj h
      exact turn_makeExecutor hi into style
  | runWaiting executor count => exact turn_runWaiting hi h
  | engine into measure manner =>
      obtain rfl := Except.ok.inj h
      exact turn_makeEngine into measure manner
  | onEngine engine c => exact turn_performOnEngine h
  | gate into =>
      obtain rfl := Except.ok.inj h
      exact turn_makeGate into
  | setGate gate engine => exact turn_setGate h
  | openGate gate => exact turn_openGate h
  | viewGate gate => exact turn_viewGate h
  | pool into capacity =>
      obtain rfl := Except.ok.inj h
      exact turn_makePool into capacity
  | onPool pool c => exact turn_performOnPool h
  | dropPool pool =>
      obtain rfl := Except.ok.inj h
      exact turn_dropPool pool
  | acquire item settings factory pool into => exact turn_acquire h
  | layout bounds engine tag handle background => exact turn_requestLayout hi h
  | onHolder handle c => exact turn_performOnHolder hi h
  | dropHandle handle =>
      obtain rfl := Except.ok.inj h
      exact turn_dropHandle handle
  | upgrade weak into => exact turn_upgrade h
  | writeHeight weak height => exact turn_writeHeight h
  | layoutTree bounds component props engine index background => exact turn_layoutTree hi h
  | onTree engine index c => exact turn_performOnTree h
  | spawn c into =>
      obtain rfl := Except.ok.inj h
      exact turn_spawn hi c into
  | join job => exact turn_join h
  | panic message =>
      obtain rfl := Except.ok.inj h
      exact Turn.panic (t := s.store) rfl (.refl s) message
  | malformed registers field => cases h

theorem of_bind_error {ε α β : Type} {x : Except ε α} {g : α → Except ε β} {e : ε}
    (h : (x >>= g) = .error e) : x = .error e ∨ ∃ a, x = .ok a ∧ g a = .error e := by
  cases x with
  | error e' => exact .inl (congrArg _ (Except.error.inj h))
  | ok a => exact .inr ⟨a, rfl, h⟩

theorem need_of_isSome {α : Type} (field : String) {value : Option α} (h : value.isSome) :
    ∃ a, need field value = .ok a := by
  obtain ⟨a, rfl⟩ := Option.isSome_iff_exists.1 h
  exact ⟨a, rfl⟩

/-- A command in trouble does nothing to the store. -/
theorem commandActs_of_error {c : Command} {trouble : Trouble}
    (h : s.perform i c = .error trouble) : s.commandActs c = [] := by
  cases c with
  | onEngine engine c =>
      rcases of_bind_error h with he | ⟨e, he, h⟩
      · simp [commandActs, he]
      · rw [commandActs_onEngine he]
        cases c with
        | refuseNext =>
            rcases of_bind_error h with hn | ⟨engine, hn, h⟩
            · cases hs : s.store.engines[e]? with
              | none => simp [engineActs, hs]
              | some engine => simp [hs, need] at hn
            · split at h
              · cases h
              · next hr => simp [engineActs, eq_some_of_need hn, hr]
        | build component settings snapshot clipsChildren wasMounted listener =>
            rcases of_bind_error h with hr | ⟨root, hr, h⟩
            · simp [engineActs, hr]
            · rcases of_bind_error h with hp | ⟨policy, hp, h⟩
              · simp [engineActs, hp]
              · rcases of_bind_error h with hn | ⟨engine, hn, h⟩
                · cases hs : s.store.engines[e]? with
                  | none => simp [engineActs, hs]
                  | some engine => simp [hs, need] at hn
                · split at h <;> cases h
        | arm reason => cases h
        | _ => rfl
  | setGate gate engine =>
      rcases of_bind_error h with hg | ⟨g, hg, h⟩
      · simp [commandActs, hg]
      · rcases of_bind_error h with he | ⟨e, he, h⟩
        · simp [commandActs, he]
        · cases h
  | openGate gate =>
      rcases of_bind_error h with hg | ⟨g, hg, h⟩
      · simp [commandActs, hg]
      · cases h
  | onPool pool c =>
      cases c with
      | view => rfl
      | clear =>
          rcases of_bind_error h with huse | ⟨⟨s₁, p⟩, huse, h⟩
          · rcases of_bind_error huse with hp | ⟨p, hp, huse⟩
            · simp [commandActs, hp]
            · cases huse
          · cases h
  | acquire item settings factory pool into =>
      rcases of_bind_error h with hi | ⟨descriptor, hi, h⟩
      · simp [commandActs, hi]
      · rcases of_bind_error h with hs | ⟨policy, hs, h⟩
        · simp [commandActs, hs]
        · rcases of_bind_error h with huse | ⟨⟨s₁, p⟩, huse, h⟩
          · rcases of_bind_error huse with hp | ⟨p, hp, huse⟩
            · simp [commandActs, hp]
            · cases huse
          · cases h
  | onHolder handle c =>
      rcases of_bind_error h with hk | ⟨k, hk, h⟩
      · simp [commandActs, hk]
      · rw [commandActs_onHolder hk]
        cases c with
        | describe item =>
            rcases of_bind_error h with hi | ⟨descriptor, hi, h⟩
            · simp [holderActs, hi]
            · cases h
        | clone into => rfl
        | print => rfl
        | view => rfl
        | downgrade into => rfl
        | _ => cases h
  | writeHeight weak height =>
      rcases of_bind_error h with hw | ⟨w, hw, h⟩
      · simp [commandActs, hw]
      · split at h <;> cases h
  | layoutTree bounds component props engine index background =>
      rcases of_bind_error h with hr | ⟨root, hr, h⟩
      · cases background <;> simp [commandActs, hr]
      · rcases of_bind_error h with ht | ⟨t, ht, h⟩
        · cases background <;> simp [commandActs, ht]
        · cases background <;> cases h
  | onTree engine index c =>
      rcases of_bind_error h with ht | ⟨t, ht, h⟩
      · simp [commandActs, ht]
      · obtain ⟨tree, htree⟩ := need_of_isSome "tree" (built_of_treeRef ht)
        rw [htree] at h
        cases c <;> cases h
  | executor into style => cases h
  | engine into measure manner => cases h
  | gate into => cases h
  | pool into capacity => cases h
  | dropPool pool => cases h
  | _ => rfl

theorem turn_stepCommand (hi : i < s.threads.length) (c : Command) :
    Turn s i (.command c) (s.stepCommand i c) := by
  unfold stepCommand
  split
  · next h => exact turn_perform hi h
  · next h =>
      have hidle : s.frameActs i (.command c) = [] := commandActs_of_error h
      exact (Turn.idle hidle).like (like_answer _ _ _)

/-! ## Frames -/

theorem turn_stepScript (hi : i < s.threads.length) (steps : List Step) :
    Turn s i (.script steps) (s.stepScript i steps) := by
  unfold stepScript
  split
  · exact Turn.idle rfl
  · exact Turn.panic (t := s.store) rfl (.refl s) _
  · next step rest _ => exact Turn.push (t := s.store) hi rfl (.script step rest) rfl

theorem turn_stepReport (name : Option String) :
    Turn s i (.report name) (s.stepReport i name) := by
  unfold stepReport
  split
  · exact (Turn.idle rfl).like (like_report _ _)
  · exact Turn.idle rfl

theorem dequeue_spec {σ : Store} {q : Nat} {l : Layout}
    (h : s.store.dequeue q = (σ, some l)) :
    ∃ queue, s.store.queues[q]? = some queue ∧ l ∈ queue.waiting := by
  unfold Store.dequeue at h
  split at h
  · next hq =>
      obtain ⟨-, hl⟩ := Prod.mk.inj h
      obtain rfl := Option.some.inj hl
      exact ⟨_, hq, List.mem_cons_self⟩
  · cases h

theorem act_dequeue_of_none {σ : Store} {q : Nat} (h : s.store.dequeue q = (σ, none)) :
    s.store.act (.dequeue q) = s.store := by
  rw [Store.act]
  unfold Store.dequeue at h ⊢
  split
  · next hq => simp [hq] at h
  · rfl

theorem turn_stepRunWaiting (hi : i < s.threads.length) (q : Nat) (remaining : Option Nat)
    (count : Nat) :
    Turn s i (.runWaiting q remaining count) (s.stepRunWaiting i q remaining count) := by
  have hacts : s.frameActs i (.runWaiting q remaining count) =
    if remaining = some 0 then [] else [.dequeue q] := rfl
  unfold stepRunWaiting
  split
  · next hr =>
      rw [if_pos hr] at hacts
      exact (Turn.idle hacts).like (like_answer _ _ _)
  · next hr =>
      rw [if_neg hr] at hacts
      have hσ := congrArg s.store.acts hacts
      split
      · next σ hq =>
          exact (Turn.act (hσ.trans (act_dequeue_of_none hq))).like (like_answer _ _ _)
      · next σ l hq =>
          obtain ⟨queue, hqueue, hl⟩ := dequeue_spec hq
          have hsame : s.store.act (.dequeue q) = σ := by rw [Store.act, hq]
          exact Turn.push hi (hσ.trans hsame) (.dequeued remaining count hqueue hl) rfl

theorem turn_stepServe (hi : i < s.threads.length) (q : Nat) :
    Turn s i (.serve q) (s.stepServe i q) := by
  have hσ : s.store.acts (s.frameActs i (.serve q)) = s.store.act (.dequeue q) := rfl
  unfold stepServe
  split
  · next σ hq => exact Turn.push hi (hσ.trans (act_dequeue_of_none hq)) (.nothing rfl) rfl
  · next σ l hq =>
      obtain ⟨queue, hqueue, hl⟩ := dequeue_spec hq
      have hsame : s.store.act (.dequeue q) = σ := by rw [Store.act, hq]
      exact Turn.push hi (hσ.trans hsame) (.served hqueue hl) rfl

theorem turn_stepGiveBack (h : Nat) : Turn s i (.giveBack h) (s.stepGiveBack i h) :=
  (Turn.act rfl).like ((like_write _ _).trans (like_answer _ _ _))

theorem turn_stepGuard (q : Nat) : Turn s i (.guard q) (s.stepGuard i q) := by
  unfold stepGuard
  split
  · exact (Turn.idle rfl).like (like_write _ _)
  · exact Turn.idle rfl

theorem turn_stepFrame (hi : i < s.threads.length) (f : Frame) :
    Turn s i f (s.stepFrame i f) := by
  cases f with
  | command c => exact turn_stepCommand hi c
  | script steps => exact turn_stepScript hi steps
  | report name => exact turn_stepReport name
  | conclude => exact Turn.idle rfl
  | openRequest call => exact turn_stepOpenRequest hi call
  | factory factory handle => exact turn_stepFactory hi factory handle
  | claimTree call item component handle listener =>
      exact turn_stepClaimTree hi call item component handle listener
  | layout l sequel stage => exact turn_stepLayout hi l sequel stage
  | confirm r => exact turn_stepConfirm r
  | giveBack h => exact turn_stepGiveBack h
  | runWaiting q remaining count => exact turn_stepRunWaiting hi q remaining count
  | serve q => exact turn_stepServe hi q
  | guard q => exact turn_stepGuard q

/-! ## Steps -/

theorem like_dismiss (s : Session) (q : Nat) : Like s (s.dismiss q) := by
  unfold dismiss
  split
  · have hretire : Like s { s with threads := s.threads.map (Thread.retire q) } := by
      refine ⟨rfl, List.length_map .., fun j => ?_, rfl, rfl, rfl, rfl⟩
      rw [work, work, List.getElem?_map]
      cases s.threads[j]? with
      | none => rfl
      | some t =>
          simp only [Option.map_some, Option.getD_some, Thread.retire, List.filter_filter]
          congr 1
          funext f
          cases f <;> simp [Frame.isServe, Frame.serves]
    exact hretire.trans (like_write _ _)
  · exact .refl s

theorem like_foldl_dismiss (queues : List Nat) (s : Session) :
    Like s (queues.foldl dismiss s) := by
  induction queues generalizing s with
  | nil => exact .refl s
  | cons q queues ih => exact (s.like_dismiss q).trans (ih _)

theorem like_dismissSince (s before : Session) : Like s (s.dismissSince before) :=
  like_foldl_dismiss _ s

theorem work_off (s : Session) {j : Nat} (hj : j ≠ i) : (s.off i).work j = s.work j := by
  rw [off, work_modifyThread, work]
  cases s.threads[j]? with
  | none => rfl
  | some t => simp [Ne.symm hj]

theorem work_eq_of_top? {f : Frame} (h : s.top? i = some f) :
    s.work i = [f].filter (fun f => !f.isServe) ++ (s.off i).work i := by
  obtain ⟨t, ht, hf⟩ := Option.bind_eq_some_iff.1 h
  obtain ⟨rest, hrest⟩ : ∃ rest, t.stack = f :: rest := List.head?_eq_some_iff.1 hf
  rw [off, work_modifyThread, work, ht]
  simp only [Option.map_some, Option.getD_some, if_true, hrest, List.tail_cons]
  rw [← List.filter_append, List.singleton_append]

theorem work_of_top? {f : Frame} (h : s.top? i = some f) (hs : f.isServe = false) :
    s.work i = f :: (s.off i).work i := by
  rw [work_eq_of_top? h]
  simp [hs]

theorem mem_work_of_top? {f : Frame} (h : s.top? i = some f) (hs : f.isServe = false) :
    f ∈ s.work i := by
  rw [work_of_top? h hs]
  exact List.mem_cons_self

theorem advance?_eq (s : Session) (i : Nat) :
    s.advance? i = (s.top? i).bind fun f =>
      if s.isBlocked f then none else some (((s.off i).stepFrame i f).dismissSince s) := by
  unfold advance? top?
  cases hi : s.threads[i]? with
  | none => rfl
  | some t =>
      obtain ⟨_ | ⟨f, rest⟩, reply⟩ := t
      · rfl
      · have hoff : s.modifyThread i ({ · with stack := rest }) = s.off i := by
          simp only [off, modifyThread]
          congr 1
          apply List.ext_getElem?
          intro j
          rw [List.getElem?_modify, List.getElem?_modify]
          by_cases hj : i = j
          · subst hj
            simp [hi]
          · simp [hj]
        simp only [hoff, Option.bind_some, List.head?_cons]

/-- Every step is a turn of the frame on top of its thread. -/
theorem turn_of_advance? (h : s.advance? i = some s') :
    ∃ f, s.top? i = some f ∧ Turn (s.off i) i f s' := by
  rw [advance?_eq, Option.bind_eq_some_iff] at h
  obtain ⟨f, hf, h⟩ := h
  split at h
  · cases h
  · obtain rfl := Option.some.inj h
    obtain ⟨t, ht, -⟩ := Option.bind_eq_some_iff.1 hf
    have hlt : i < s.threads.length := (List.getElem?_eq_some_iff.1 ht).1
    exact ⟨f, hf, (turn_stepFrame (by simpa [off, modifyThread] using hlt) f).like
      (like_dismissSince _ _)⟩

/-- What a step does to the store are its acts. -/
theorem store_advance? (h : s.advance? i = some s') : s'.store = s.store.acts (s.acts i) := by
  obtain ⟨f, hf, ht⟩ := turn_of_advance? h
  rw [ht.store, acts, hf]
  rfl

end Recycler.Session

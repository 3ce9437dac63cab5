import Recycler.Proofs.Twin.Command

/-!
# Steps in twin sessions

A thread that is carried on by one frame does the same in twin sessions (`Twin.stepFrame`), if the
frame `Fits`: it is for a paired holder, and the weak handle that it may look at is faithful. The
same workers end with a step, so `advance?` keeps twins as well.
-/

namespace Recycler

open Session in
/-- Whether a frame is for a paired holder, and the weak handles that it looks at resolve to holders
that stand for each other. -/
def Frame.Fits (ρ : Renaming) (P : Nat → Prop) (i : Nat) (s s' : Session) : Frame → Prop
  | .command c => (∀ k, s.Holds k → P k) ∧ (∀ w, s.Keeps w → Faithful ρ P s s' w) ∧
    ∀ item settings factory pool into, c ≠ .acquire item settings factory pool into
  | .factory _ w => Faithful ρ P s s' w
  | .claimTree call item component handle listener =>
    (Store.Act.claimTree call item component handle listener).Fits ρ P s.store s'.store
  | .layout l sequel (.notifyMeasured size ready) => ∀ w, s.store.Listens w →
    Faithful ρ P (s.push i [.layout l sequel (.notifyReady size ready)])
      (s'.push i [.layout l (sequel.rename ρ) (.notifyReady size ready)]) w
  | f => ∀ k, f.holder? = some k → P k

namespace Session

variable {ρ : Renaming} {P : Nat → Prop} {s s' : Session} {i : Nat}

/-! ## Requests -/

theorem Twin.launch (h : s.Twin ρ P s') (r : Request) :
    (s.launch i r).Twin ρ P (s'.launch i (r.rename ρ)) := by
  have hbackground : (r.rename ρ).call.background = r.call.background := rfl
  unfold Session.launch
  rw [hbackground]
  split
  · exact h.handOver r.layout [.confirm r]
  · exact h.push i [.layout r.layout (.commit r) .enter]

theorem Twin.stepOpenRequest (h : s.Twin ρ P s') {call : Call} (hk : P call.holder) :
    (s.stepOpenRequest i call).Twin ρ P (s'.stepOpenRequest i (call.rename ρ)) := by
  obtain ⟨halike, hopening⟩ := h.store.openRequest hk
  have hopened := h.withStore (h.store.act h.inj (a := .openRequest call)
    fun _ hj => Option.some.inj hj ▸ hk)
  dsimp only [Store.act, Store.Act.rename] at hopened
  unfold Session.stepOpenRequest
  generalize s.store.openRequest call = σ at hopening hopened ⊢
  generalize s'.store.openRequest (call.rename ρ) = σ' at hopening hopened ⊢
  obtain ⟨u, opening⟩ := σ
  obtain ⟨u', opening'⟩ := σ'
  obtain rfl : opening' = opening.rename ρ := hopening
  cases opening with
  | released => exact Twin.say (hopened.write _ _) i _
  | view => exact hopened.say i _
  | live r => exact hopened.launch r
  | vacant item component factory handle =>
      cases factory with
      | none => exact hopened.push i [.claimTree call item component handle none]
      | some factory =>
          exact hopened.push i [.factory factory handle,
            .claimTree call item component handle (some ⟨factory, some handle⟩)]

theorem Twin.stepFactory (h : s.Twin ρ P s') (factory : Factory) {w : WeakHandle}
    (hw : Faithful ρ P s s' w) :
    (s.stepFactory i factory w).Twin ρ P (s'.stepFactory i factory (ρ.handle w)) := by
  obtain ⟨hresolve, hpaired⟩ := hw
  unfold Session.stepFactory
  rw [hresolve]
  cases hr : s.resolve? w with
  | none => exact Twin.fire (h.report (.factory _ w (ρ.handle w) rfl)) i _
  | some k =>
      exact Twin.fire ((h.look k (ρ.holder k)).report
        (.factory _ w (ρ.handle w) (h.view? (hpaired k hr)))) i _

theorem Twin.stepClaimTree (h : s.Twin ρ P s') {call : Call} {item : Shared Descriptor}
    {component : Component} {handle : WeakHandle} {listener : Option MeasureListener}
    (hf : (Store.Act.claimTree call item component handle listener).Fits ρ P s.store s'.store) :
    (s.stepClaimTree i call item component handle listener).Twin ρ P
      (s'.stepClaimTree i (call.rename ρ) item component (ρ.handle handle)
        (listener.map (·.rename ρ))) := by
  obtain ⟨-, hclaim⟩ := h.store.claimTree item component listener hf
  have hclaimed := h.act hf
  dsimp only [Store.act, Store.Act.rename] at hclaimed
  unfold Session.stepClaimTree
  generalize s.store.claimTree call item component handle listener = σ at hclaim hclaimed ⊢
  generalize s'.store.claimTree (call.rename ρ) item component (ρ.handle handle)
    (listener.map (·.rename ρ)) = σ' at hclaim hclaimed ⊢
  obtain ⟨u, claim⟩ := σ
  obtain ⟨u', claim'⟩ := σ'
  obtain rfl : claim' = claim.rename ρ := hclaim
  cases claim with
  | stale => exact Twin.say (hclaimed.write _ _) i _
  | found tree => exact hclaimed.launch ⟨call, item, component, tree⟩
  | built config tree =>
      exact ((hclaimed.write _ _).reportBuilding call.engine config).launch
        ⟨call, item, component, tree⟩
  | refused config => exact Twin.panic ((hclaimed.write _ _).reportBuilding call.engine config) i _

theorem Twin.stepConfirm (h : s.Twin ρ P s') {r : Request} (hk : P r.call.holder) :
    (s.stepConfirm i r).Twin ρ P (s'.stepConfirm i (r.rename ρ)) :=
  (h.act (a := .confirmLayout r) fun _ hj => Option.some.inj hj ▸ hk).say i .done

theorem Twin.stepGiveBack (h : s.Twin ρ P s') (k : Nat) :
    (s.stepGiveBack i k).Twin ρ P (s'.stepGiveBack i (ρ.holder k)) := by
  obtain ⟨p, f, hf, heq⟩ := s.store.giveBack_eq k (s.isAlive k)
  obtain ⟨p', f', hf', heq'⟩ := s'.store.giveBack_eq (ρ.holder k) (s'.isAlive (ρ.holder k))
  have hstore : (s.store.giveBack k (s.isAlive k)).1.Twin ρ P
      (s'.store.giveBack (ρ.holder k) (s'.isAlive (ρ.holder k))).1 := by
    rw [heq, heq']
    exact ⟨h.store.modifyPool p p' hf hf', h.store.holders⟩
  exact Twin.say ((h.withStore hstore).write _ _) i .done

/-! ## Layouts -/

theorem Twin.stepEnter (h : s.Twin ρ P s') (l : Layout) (sequel : Sequel) :
    (s.stepEnter i l sequel).Twin ρ P (s'.stepEnter i l (sequel.rename ρ)) := by
  obtain ⟨-, hentry⟩ := h.store.enterLayout l.tree
  have hentered := h.act (a := .enterLayout l.tree) nofun
  dsimp only [Store.act, Store.Act.rename] at hentered
  unfold Session.stepEnter
  generalize s.store.enterLayout l.tree = σ at hentry hentered ⊢
  generalize s'.store.enterLayout l.tree = σ' at hentry hentered ⊢
  obtain ⟨u, entry⟩ := σ
  obtain ⟨u', entry'⟩ := σ'
  obtain rfl : entry' = entry := hentry
  rcases entry' with failure | _ | g
  · exact hentered.push i [.layout l sequel (.deliver (.error failure))]
  · exact hentered.push i [.layout l sequel .measure]
  · exact hentered.push i [.layout l sequel (.gate g)]

theorem Twin.stepMeasure (h : s.Twin ρ P s') (l : Layout) (sequel : Sequel) :
    (s.stepMeasure i l sequel).Twin ρ P (s'.stepMeasure i l (sequel.rename ρ)) := by
  have hsize : s'.store.measure l = s.store.measure l := by
    unfold Store.measure
    rw [h.store.engine]
    cases s.store.engines[l.tree.engine]? <;> rfl
  have hpushed := h.push i [.layout l sequel (.settle (s.store.measure l))]
  unfold Session.stepMeasure
  rw [hsize]
  dsimp only [store_push]
  rw [h.store.engine]
  cases s.store.engines[l.tree.engine]? with
  | none => exact hpushed
  | some e =>
      have hmanner : (e.rename ρ).manner = e.manner := rfl
      have hname : (e.rename ρ).name = e.name := rfl
      dsimp only [Option.map_some]
      rw [hmanner, hname]
      split
      · exact Twin.fire (hpushed.report (.refl _)) i _
      · exact hpushed

theorem Twin.stepSettle (h : s.Twin ρ P s') (l : Layout) (sequel : Sequel) (size : Size) :
    (s.stepSettle i l sequel size).Twin ρ P (s'.stepSettle i l (sequel.rename ρ) size) := by
  have hready : ((s'.store.tree? l.tree).bind fun t => t.readyListener) =
      (s.store.tree? l.tree).bind fun t => t.readyListener := by
    rw [h.store.tree?]
    cases s.store.tree? l.tree <;> rfl
  unfold Session.stepSettle
  rw [hready]
  exact (h.act (a := .settleLayout l size) nofun).push i [.layout l sequel (.notifyMeasured size _)]

theorem Twin.stepNotifyReady (h : s.Twin ρ P s') (l : Layout) (sequel : Sequel) (size : Size)
    (ready : Option ReadyListener) :
    (s.stepNotifyReady i l sequel size ready).Twin ρ P
      (s'.stepNotifyReady i l (sequel.rename ρ) size ready) := by
  have hpushed := h.push i [.layout l sequel (.deliver (.ok size))]
  have hmounted : ((s'.store.tree? l.tree).any fun t => t.mounted) =
      (s.store.tree? l.tree).any fun t => t.mounted := by
    rw [h.store.tree?]
    cases s.store.tree? l.tree <;> rfl
  unfold Session.stepNotifyReady
  dsimp only [store_push]
  rw [hmounted]
  cases ready with
  | none => exact hpushed
  | some listener => exact Twin.fire (hpushed.report (.refl _)) i _

theorem Twin.stepNotifyMeasured (h : s.Twin ρ P s') (l : Layout) (sequel : Sequel) (size : Size)
    (ready : Option ReadyListener)
    (hf : (Frame.layout l sequel (.notifyMeasured size ready)).Fits ρ P i s s') :
    (s.stepNotifyMeasured i l sequel size ready).Twin ρ P
      (s'.stepNotifyMeasured i l (sequel.rename ρ) size ready) := by
  have hpushed := h.push i [.layout l sequel (.notifyReady size ready)]
  unfold Session.stepNotifyMeasured
  dsimp only [store_push]
  rw [h.store.tree?]
  cases htree : s.store.tree? l.tree with
  | none => exact hpushed
  | some tree =>
      have hconfig : (tree.rename ρ).config.listener = tree.config.listener.map (·.rename ρ) := rfl
      dsimp only [Option.map_some, Option.bind_some]
      rw [hconfig]
      cases hlistener : tree.config.listener with
      | none => exact hpushed
      | some listener =>
          obtain ⟨f, handle⟩ := listener
          cases handle with
          | none => exact Twin.fire (hpushed.report (.refl _)) i _
          | some w =>
              obtain ⟨hresolve, hpaired⟩ := hf w ⟨l.tree, tree, _, htree, hlistener, rfl⟩
              simp only [Option.map_some, MeasureListener.rename]
              split
              · have hwritten : ((s'.push i [.layout l (sequel.rename ρ)
                    (.notifyReady size ready)]).resolve? (ρ.handle w)).isSome =
                    ((s.push i
                      [.layout l sequel (.notifyReady size ready)]).resolve? w).isSome := by
                  rw [hresolve, Option.isSome_map]
                rw [hwritten]
                split
                · next hsome =>
                    obtain ⟨k, hk⟩ := Option.isSome_iff_exists.1 hsome
                    obtain ⟨hwk, hgen⟩ := eq_of_resolve? hk
                    have hP : P w.holder := hwk ▸ hpaired k hk
                    exact Twin.fire (Twin.report (hpushed.act (a := .writeHeight w size.height)
                      ⟨hP, hgen⟩) (.refl _)) i _
                · exact Twin.fire (hpushed.report (.refl _)) i _
              · exact Twin.fire (hpushed.report (.refl _)) i _

theorem Twin.stepDeliver (h : s.Twin ρ P s') (l : Layout) {sequel : Sequel}
    (outcome : Except Failure Size)
    (hk : ∀ k, (Frame.layout l sequel (.deliver outcome)).holder? = some k → P k) :
    (s.stepDeliver i l sequel outcome).Twin ρ P (s'.stepDeliver i l (sequel.rename ρ) outcome) := by
  cases sequel with
  | commit r =>
      cases outcome with
      | error failure => exact h.say i _
      | ok size =>
          have hcommitted := h.act (a := .commitLayout r size)
            fun _ hj => Option.some.inj hj ▸ hk _ rfl
          exact Twin.say (Twin.write hcommitted _ _) i _
  | background =>
      cases outcome with
      | error failure => exact Twin.say (h.write _ _) i _
      | ok size => exact h.say i _
  | reply => cases outcome <;> exact h.say i _

theorem Twin.stepLayout (h : s.Twin ρ P s') {l : Layout} {sequel : Sequel} {stage : Stage}
    (hf : (Frame.layout l sequel stage).Fits ρ P i s s') :
    (s.stepLayout i l sequel stage).Twin ρ P (s'.stepLayout i l (sequel.rename ρ) stage) := by
  cases stage with
  | enter => exact h.stepEnter l sequel
  | gate g => exact h.push i [.layout l sequel .measure]
  | measure => exact h.stepMeasure l sequel
  | settle size => exact h.stepSettle l sequel size
  | notifyMeasured size ready => exact h.stepNotifyMeasured l sequel size ready hf
  | notifyReady size ready => exact h.stepNotifyReady l sequel size ready
  | deliver outcome => exact h.stepDeliver l outcome hf

/-! ## Scripts and queues -/

theorem Twin.stepScript (h : s.Twin ρ P s') (steps : List Step) :
    (s.stepScript i steps).Twin ρ P (s'.stepScript i steps) := by
  unfold Session.stepScript
  split
  · exact h
  · exact h.panic i _
  · next step rest _ => exact h.push i [.command step.command, .report step.name, .script rest]

theorem Twin.stepReport (h : s.Twin ρ P s') (name : Option String) :
    (s.stepReport i name).Twin ρ P (s'.stepReport i name) := by
  have ht := h.threads i
  unfold Session.stepReport
  revert ht
  cases s.threads[i]? <;> cases s'.threads[i]? <;> intro ht <;> cases ht
  · exact h
  · next t t' ht => exact h.report (.step name ht.reply)

theorem Twin.stepRunWaiting (h : s.Twin ρ P s') (q : Nat) (remaining : Option Nat) (count : Nat) :
    (s.stepRunWaiting i q remaining count).Twin ρ P
      (s'.stepRunWaiting i q remaining count) := by
  obtain ⟨-, hqueue⟩ := h.store.dequeue q
  have hdequeued := h.act (a := .dequeue q) nofun
  dsimp only [Store.act, Store.Act.rename] at hdequeued
  unfold Session.stepRunWaiting
  generalize s.store.dequeue q = σ at hqueue hdequeued ⊢
  generalize s'.store.dequeue q = σ' at hqueue hdequeued ⊢
  obtain ⟨u, l⟩ := σ
  obtain ⟨u', l'⟩ := σ'
  obtain rfl : l' = l := hqueue
  split
  · exact h.say i _
  · cases l' with
    | none => exact h.say i _
    | some l =>
        exact hdequeued.push i [.layout l .background .enter,
          .runWaiting q (remaining.map (· - 1)) (count + 1)]

theorem Twin.stepServe (h : s.Twin ρ P s') (q : Nat) :
    (s.stepServe i q).Twin ρ P (s'.stepServe i q) := by
  obtain ⟨-, hqueue⟩ := h.store.dequeue q
  have hdequeued := h.act (a := .dequeue q) nofun
  dsimp only [Store.act, Store.Act.rename] at hdequeued
  unfold Session.stepServe
  generalize s.store.dequeue q = σ at hqueue hdequeued ⊢
  generalize s'.store.dequeue q = σ' at hqueue hdequeued ⊢
  obtain ⟨u, l⟩ := σ
  obtain ⟨u', l'⟩ := σ'
  obtain rfl : l' = l := hqueue
  cases l' with
  | none => exact h.push i [.serve q]
  | some l => exact hdequeued.push i [.layout l .background .enter, .guard q, .serve q]

theorem Twin.stepGuard (h : s.Twin ρ P s') (q : Nat) :
    (s.stepGuard i q).Twin ρ P (s'.stepGuard i q) := by
  have hguard (t : Session) : ∃ lines, t.stepGuard i q = t.write lines := by
    unfold Session.stepGuard
    split
    · exact ⟨_, rfl⟩
    · exact ⟨[], by simp [Session.write]⟩
  obtain ⟨lines, heq⟩ := hguard s
  obtain ⟨lines', heq'⟩ := hguard s'
  rw [heq, heq']
  exact h.write lines lines'

/-- A frame that fits does the same in twin sessions. -/
theorem Twin.stepFrame (h : s.Twin ρ P s') {f : Frame} (hf : f.Fits ρ P i s s') :
    (s.stepFrame i f).Twin ρ P (s'.stepFrame i (f.rename ρ)) := by
  cases f with
  | command c => exact Both.stepCommand h (h.perform hf.1 hf.2.1 hf.2.2)
  | script steps => exact h.stepScript steps
  | report name => exact h.stepReport name
  | conclude => exact h
  | openRequest call => exact h.stepOpenRequest (hf _ rfl)
  | factory factory handle => exact h.stepFactory factory hf
  | claimTree call item component handle listener => exact h.stepClaimTree hf
  | layout l sequel stage => exact h.stepLayout hf
  | confirm r => exact h.stepConfirm (hf _ rfl)
  | giveBack k => exact h.stepGiveBack k
  | runWaiting q remaining count => exact h.stepRunWaiting q remaining count
  | serve q => exact h.stepServe q
  | guard q => exact h.stepGuard q

/-! ## Workers -/

/-- Whether a frame is a worker of one of the queues. -/
def isWorkerOf (s : Session) (queues : List Nat) (f : Frame) : Bool :=
  queues.any fun q => s.store.queues[q]?.any (·.hasWorker) && f.serves q

/-- The workers of the queues end, in whatever order the queues come. -/
theorem foldl_dismiss (queues : List Nat) (s : Session) :
    ∃ lines, queues.foldl dismiss s = { s with
      threads := s.threads.map fun t => ⟨t.stack.filter fun f => !s.isWorkerOf queues f, t.reply⟩
      logs := lines } := by
  induction queues generalizing s with
  | nil =>
      have hall (t : Thread) :
          (⟨t.stack.filter fun f => !s.isWorkerOf [] f, t.reply⟩ : Thread) = t := by
        have hstack : t.stack.filter (fun f => !s.isWorkerOf [] f) = t.stack :=
          List.filter_eq_self.2 fun _ _ => rfl
        rw [hstack]
      refine ⟨s.logs, ?_⟩
      rw [List.map_congr_left fun t _ => hall t, List.map_id']
      rfl
  | cons q queues ih =>
      obtain ⟨lines, heq⟩ := ih (s.dismiss q)
      refine ⟨lines, ?_⟩
      rw [List.foldl_cons, heq]
      unfold dismiss
      split
      · next name _ hq =>
          simp [write, hq, Thread.retire, isWorkerOf, List.filter_filter, Bool.and_comm]
      · next hq =>
          have hnone : s.store.queues[q]?.any (·.hasWorker) = false := by
            cases hqueue : s.store.queues[q]? with
            | none => rfl
            | some queue =>
                obtain ⟨name, _ | _, waiting⟩ := queue
                · rfl
                · exact absurd hqueue (hq name waiting)
          simp [hnone, isWorkerOf]

theorem Twin.foldl_dismiss (h : s.Twin ρ P s') {queues queues' : List Nat}
    (hqueues : ∀ q, q ∈ queues' ↔ q ∈ queues) :
    (queues.foldl dismiss s).Twin ρ P (queues'.foldl dismiss s') := by
  obtain ⟨lines, heq⟩ := Session.foldl_dismiss queues s
  obtain ⟨lines', heq'⟩ := Session.foldl_dismiss queues' s'
  have hworker (f : Frame) : s'.isWorkerOf queues' (f.rename ρ) = s.isWorkerOf queues f := by
    unfold isWorkerOf
    rw [h.store.queues]
    simp only [Frame.serves_rename]
    rw [Bool.eq_iff_iff, List.any_eq_true, List.any_eq_true]
    simp only [hqueues]
  rw [heq, heq']
  exact { h with
    count := by simp [h.count]
    threads := fun j => by
      have ht := h.threads j
      revert ht
      simp only [List.getElem?_map]
      cases s.threads[j]? <;> cases s'.threads[j]? <;> intro ht <;> cases ht
      · exact .none
      · next t t' ht =>
          refine .some ⟨?_, ht.reply⟩
          dsimp only
          rw [ht.stack, List.filter_map]
          simp only [Function.comp_def, hworker] }

theorem Twin.dismissSince {o o' : Session} (h : s.Twin ρ P s')
    (hbefore : ∀ q, q ∈ o'.queuesInUse ↔ q ∈ o.queuesInUse)
    (hkept : ∀ q, q ∈ s'.queuesInUse ↔ q ∈ s.queuesInUse) :
    (s.dismissSince o).Twin ρ P (s'.dismissSince o') := by
  refine h.foldl_dismiss fun q => ?_
  simp [List.mem_eraseDups, hbefore, hkept]

end Session

end Recycler

import Recycler.Proofs.Session.Runs
import Recycler.Proofs.Store.Pool

/-!
# What every run keeps

`Licensed` says how the acts of a step come about: an act on a holder goes through a handle, or
belongs to the request that is carried on, and what is written through a weak handle needs one of
the holder's generation. From it follows that sessions stay `Sound`: no tree is in use by two
holders, and no handle is of a generation that is still to come.
-/

namespace Recycler

def Frame.Sound (s : Store) : Frame → Prop
  | .openRequest call => call.holder < s.holders.length
  | .claimTree call item component handle listener =>
    handle.holder = call.holder ∧ s.Issued handle ∧ item.value.component? = some component ∧
      ∀ l ∈ listener, l.handle = some handle
  | .layout l (.commit r) _ =>
    s.Built l.tree ∧ l = r.layout ∧ r.item.value.component? = some r.component ∧
      r.call.holder < s.holders.length
  | .layout l _ _ => s.Built l.tree
  | .confirm r =>
    s.Built r.tree ∧ r.item.value.component? = some r.component ∧
      r.call.holder < s.holders.length
  | .giveBack h => h < s.holders.length
  | _ => True

theorem Frame.Sound.act {s : Store} {f : Frame} (h : f.Sound s) (a : Store.Act) :
    f.Sound (s.act a) := by
  have hlen := s.length_le_act a
  cases f with
  | openRequest call => exact Nat.lt_of_lt_of_le h hlen
  | claimTree call item component handle listener => exact ⟨h.1, h.2.1.act a, h.2.2⟩
  | layout l sequel stage =>
      cases sequel with
      | commit r => exact ⟨h.1.act s a, h.2.1, h.2.2.1, Nat.lt_of_lt_of_le h.2.2.2 hlen⟩
      | background => exact Store.Built.act s h a
      | reply => exact Store.Built.act s h a
  | confirm r => exact ⟨h.1.act s a, h.2.1, Nat.lt_of_lt_of_le h.2.2 hlen⟩
  | giveBack k => exact Nat.lt_of_lt_of_le h hlen
  | _ => trivial

theorem Frame.Sound.lt {s : Store} {f : Frame} (h : f.Sound s) {k : Nat}
    (hk : f.holder? = some k) : k < s.holders.length := by
  cases f with
  | openRequest call => exact Option.some.inj hk ▸ h
  | claimTree call item component handle listener =>
      obtain ⟨hcall, hissued, -⟩ := h
      obtain rfl : call.holder = k := Option.some.inj hk
      rw [← hcall]
      exact hissued.lt
  | layout l sequel stage =>
      cases sequel with
      | commit r => exact Option.some.inj hk ▸ h.2.2.2
      | _ => cases hk
  | confirm r => exact Option.some.inj hk ▸ h.2.2
  | giveBack j => exact Option.some.inj hk ▸ h
  | _ => cases hk

namespace Session

variable {s s' : Session} {i : Nat} {f : Frame} {a : Store.Act}

/-- How an act of a frame comes about. -/
def Licensed (s : Session) (f : Frame) : Store.Act → Prop
  | .acquire p item policy factory => s.Knows item ∧ ∃ name settings pool into,
      f = .command (.acquire name settings factory pool into) ∧ s.item name = .ok item ∧
        s.policy settings = .ok policy ∧ s.pool pool = .ok p
  | .change h c => s.Holds h ∧ ∀ item, c = .describe item → s.Knows item
  | .advance h _ => s.Holds h
  | .evict h => s.Holds h
  | .reset h => ∃ name, s.registers.handles.get? name = some h ∧
      f = .command (.onHolder name .release)
  | .giveBack h referred => f = .giveBack h ∧ referred = s.isAlive h
  | .setReadyListener h _ => s.Holds h
  | .openRequest call => f = .openRequest call
  | .claimTree call item component handle listener =>
    f = .claimTree call item component handle listener
  | .commitLayout r size => ∃ l, f = .layout l (.commit r) (.deliver (.ok size))
  | .confirmLayout r => f = .confirm r
  | .writeHeight w _ => s.store.isOfGeneration w ∧ (s.Keeps w ∨ s.store.Listens w)
  | .settleLayout l size => ∃ sequel, f = .layout l sequel (.settle size)
  | .enqueue _ l => (∃ c, f = .command c ∧ s.store.Built l.tree) ∨
      (∃ call r, f = .openRequest call ∧ l = r.layout ∧ (s.store.openRequest call).2 = .live r) ∨
      ∃ call item component handle listener tree,
        f = .claimTree call item component handle listener ∧ l.tree = tree ∧
          (s.store.claimTree call item component handle listener).1.live? call.holder = some tree
  | .build _ config => ∀ l ∈ config.listener, l.handle = none
  | .addPool pool => pool.idle = []
  | .addQueue queue => queue.waiting = []
  | _ => True

theorem isOfGeneration_of_resolve? {w : WeakHandle} (h : (s.resolve? w).isSome) :
    s.store.isOfGeneration w := by
  unfold resolve? at h
  split at h
  · next hw => exact (Bool.and_eq_true_iff.1 hw).2
  · cases h

theorem mem_handOverActs {t : Store} {l : Layout} (h : a ∈ handOverActs t l) :
    ∃ q, a = .enqueue q l := by
  unfold handOverActs at h
  split at h
  · exact ⟨_, List.mem_singleton.1 h⟩
  · cases h

theorem mem_launchActs {t : Store} {r : Request} (h : a ∈ launchActs t r) :
    ∃ q, a = .enqueue q r.layout := by
  unfold launchActs at h
  split at h
  · exact mem_handOverActs h
  · cases h

/-- After the claim, a request in the background hands its layout over and does nothing else. -/
theorem mem_tail_claimActs {call : Call} {item : Shared Descriptor} {component : Component}
    {handle : WeakHandle} {listener : Option MeasureListener}
    (ha : a ∈ (s.claimActs call item component handle listener).tail) :
    ∃ q l, a = .enqueue q l := by
  rw [claimActs, List.tail_cons] at ha
  split at ha
  · obtain ⟨q, rfl⟩ := mem_launchActs ha
    exact ⟨q, _, rfl⟩
  · obtain ⟨q, rfl⟩ := mem_launchActs ha
    exact ⟨q, _, rfl⟩
  · cases ha

theorem live?_of_openRequest {t : Store} {call : Call} {r : Request}
    (h : (t.openRequest call).2 = .live r) :
    r.call = call ∧ r.item.value.component? = some r.component ∧
      t.live? call.holder = some r.tree ∧ ∃ x, t.holders[call.holder]? = some x ∧
        x.state.item = some r.item := by
  unfold Store.openRequest at h
  split at h
  · cases h
  · next x hx =>
      split at h
      · cases h
      · next item hitem =>
          split at h
          · cases h
          · next component hc =>
              dsimp only at h
              split at h
              · next tree ht =>
                  cases h
                  exact ⟨rfl, hc, (t.live?_eq hx).trans ht, x, hx, hitem⟩
              · cases h

theorem of_vacant_openRequest {t : Store} {call : Call} {item : Shared Descriptor}
    {component : Component} {factory : Option Factory} {handle : WeakHandle}
    (h : (t.openRequest call).2 = .vacant item component factory handle) :
    item.value.component? = some component ∧ ∃ x, t.holders[call.holder]? = some x ∧
      x.state.item = some item ∧ factory = x.state.factory ∧
      handle = x.downgrade call.holder := by
  unfold Store.openRequest at h
  split at h
  · cases h
  · next x hx =>
      split at h
      · cases h
      · next item' hitem =>
          split at h
          · cases h
          · next component' hc =>
              dsimp only at h
              split at h
              · cases h
              · cases h
                exact ⟨hc, x, hx, hitem, rfl, rfl⟩

/-- A claim that goes on does so with the tree that the holder has then. -/
theorem live?_of_claimTree {t t' : Store} {call : Call} {item : Shared Descriptor}
    {component : Component} {handle : WeakHandle} {listener : Option MeasureListener}
    {tree : TreeRef}
    (h : t.claimTree call item component handle listener = (t', .found tree) ∨
      ∃ config, t.claimTree call item component handle listener = (t', .built config tree)) :
    t'.live? call.holder = some tree ∧
      ∃ x, t.holders[call.holder]? = some x ∧ x.generation = handle.generation := by
  have hstore : (t.claimTree call item component handle listener).1 = t' := by
    rcases h with h | ⟨config, h⟩ <;> rw [h]
  obtain ⟨x, engine, hx, he, hg, htree⟩ : ∃ x engine, t.holders[call.holder]? = some x ∧
      t.engines[call.engine]? = some engine ∧ x.generation = handle.generation ∧
      (x.state.slot.tree? = some tree ∨ x.state.slot.tree? = none ∧ engine.refuses = false ∧
        tree = ⟨call.engine, engine.trees.length⟩) := by
    unfold Store.claimTree at h
    split at h
    · next x engine hx he =>
        refine ⟨x, engine, hx, he, ?_⟩
        split at h
        · next hg =>
            refine ⟨hg, ?_⟩
            split at h
            · next u hu => rcases h with h | ⟨config, h⟩ <;> cases h; exact .inl hu
            · next hu =>
                dsimp only at h
                split at h
                · rcases h with h | ⟨config, h⟩ <;> cases h
                · next hr =>
                    rcases h with h | ⟨config, h⟩ <;> cases h
                    exact .inr ⟨hu, by simpa using hr, rfl⟩
        · rcases h with h | ⟨config, h⟩ <;> cases h
    · rcases h with h | ⟨config, h⟩ <;> cases h
  refine ⟨?_, x, hx, hg⟩
  have hafter := t.getElem?_claimTree call item component handle listener hx
  rw [hstore] at hafter
  rw [t'.live?_eq hafter]
  rcases htree with ht | ⟨ht, hr, rfl⟩
  · simp [Store.Act.onHolder, ht]
  · have hvacant : call.holder = call.holder ∧ x.generation = handle.generation ∧
        x.state.slot.tree? = none := ⟨rfl, hg, ht⟩
    rw [Store.Act.onHolder, if_pos hvacant]
    simp only [Store.supplied, he, hr]
    rfl

theorem knows_of_item {name : String} {item : Shared Descriptor} (h : s.item name = .ok item) :
    s.Knows item := ⟨name, eq_some_of_need h⟩

theorem licensed_holderActs {name : String} {h : Nat} {c : HolderCommand}
    (hn : s.holder name = .ok h) (ha : a ∈ s.holderActs h c) :
    s.Licensed (.command (.onHolder name c)) a := by
  have hh : s.Holds h := holds_of_holder hn
  cases c with
  | release =>
      obtain rfl := List.mem_singleton.1 ha
      exact ⟨name, eq_some_of_need hn, rfl⟩
  | describe item =>
      rw [holderActs] at ha
      split at ha
      · next descriptor hitem =>
          obtain rfl := List.mem_singleton.1 ha
          refine ⟨hh, fun item' hc => ?_⟩
          cases hc
          exact knows_of_item hitem
      · cases ha
  | invalidate =>
      obtain rfl := List.mem_singleton.1 ha
      exact ⟨hh, fun _ hc => by cases hc⟩
  | setHeight height =>
      obtain rfl := List.mem_singleton.1 ha
      exact ⟨hh, fun _ hc => by cases hc⟩
  | setInserted inserted =>
      obtain rfl := List.mem_singleton.1 ha
      exact ⟨hh, fun _ hc => by cases hc⟩
  | clearParked =>
      obtain rfl := List.mem_singleton.1 ha
      exact ⟨hh, fun _ hc => by cases hc⟩
  | advance progress =>
      obtain rfl := List.mem_singleton.1 ha
      exact hh
  | evict =>
      obtain rfl := List.mem_singleton.1 ha
      exact hh
  | reportWindow position window =>
      obtain rfl := List.mem_singleton.1 ha
      trivial
  | setReadyListener listener =>
      obtain rfl := List.mem_singleton.1 ha
      exact hh
  | _ => cases ha

theorem licensed_treeActs {t : TreeRef} {c : TreeCommand} (ha : a ∈ treeActs t c) :
    s.Licensed f a := by
  cases c <;> simp only [treeActs, List.mem_singleton, List.not_mem_nil] at ha <;> subst ha <;>
    trivial

theorem licensed_engineActs {e : Nat} {c : EngineCommand} (ha : a ∈ s.engineActs e c) :
    s.Licensed f a := by
  cases c with
  | arm reason =>
      obtain rfl := List.mem_singleton.1 ha
      trivial
  | refuseNext =>
      rw [engineActs] at ha
      split at ha
      · split at ha
        · obtain rfl := List.mem_singleton.1 ha
          trivial
        · cases ha
      · cases ha
  | build component settings snapshot clipsChildren wasMounted listener =>
      rw [engineActs] at ha
      split at ha
      · dsimp only at ha
        split at ha
        · obtain rfl := List.mem_singleton.1 ha
          trivial
        · obtain rfl := List.mem_singleton.1 ha
          intro l hl
          obtain ⟨l', -, rfl⟩ := Option.map_eq_some_iff.1 hl
          rfl
      · cases ha
  | _ => cases ha

theorem licensed_commandActs {c : Command} (ha : a ∈ s.commandActs c) :
    s.Licensed (.command c) a := by
  cases c with
  | executor into style =>
      cases style with
      | inline => cases ha
      | manual =>
          obtain rfl := List.mem_singleton.1 ha
          exact rfl
      | worker =>
          obtain rfl := List.mem_singleton.1 ha
          exact rfl
  | engine into measure manner =>
      obtain rfl := List.mem_singleton.1 ha
      trivial
  | onEngine engine c =>
      rw [commandActs] at ha
      split at ha
      · exact licensed_engineActs ha
      · cases ha
  | gate into =>
      obtain rfl := List.mem_singleton.1 ha
      trivial
  | setGate gate engine =>
      rw [commandActs] at ha
      split at ha
      · obtain rfl := List.mem_singleton.1 ha
        trivial
      · cases ha
  | openGate gate =>
      rw [commandActs] at ha
      split at ha
      · obtain rfl := List.mem_singleton.1 ha
        trivial
      · cases ha
  | pool into capacity =>
      rw [commandActs] at ha
      split at ha
      · next pool hpool =>
          rcases List.mem_append.1 ha with ha | ha
          · obtain ⟨p, -, rfl⟩ := Option.map_eq_some_iff.1 (Option.mem_toList.1 ha)
            trivial
          · obtain rfl := List.mem_singleton.1 ha
            obtain rfl := Pool.eq_of_new? hpool
            exact rfl
      · cases ha
  | onPool pool c =>
      cases c with
      | view => cases ha
      | clear =>
          rw [commandActs] at ha
          split at ha
          · obtain rfl := List.mem_singleton.1 ha
            trivial
          · cases ha
  | dropPool pool =>
      obtain ⟨p, -, rfl⟩ := Option.map_eq_some_iff.1 (Option.mem_toList.1 ha)
      trivial
  | acquire item settings factory pool into =>
      rw [commandActs] at ha
      split at ha
      · next hitem hpolicy hpool =>
          obtain rfl := List.mem_singleton.1 ha
          exact ⟨knows_of_item hitem, item, settings, pool, into, rfl, hitem, hpolicy, hpool⟩
      · cases ha
  | onHolder handle c =>
      rw [commandActs] at ha
      split at ha
      · next hh => exact licensed_holderActs hh ha
      · cases ha
  | writeHeight weak height =>
      rw [commandActs] at ha
      split at ha
      · next w hw =>
          split at ha
          · next hres =>
              obtain rfl := List.mem_singleton.1 ha
              exact ⟨isOfGeneration_of_resolve? hres, .inl ⟨weak, eq_some_of_need hw⟩⟩
          · cases ha
      · cases ha
  | layoutTree bounds component props engine index background =>
      cases background with
      | false => cases ha
      | true =>
          rw [commandActs] at ha
          split at ha
          · next ht =>
              obtain ⟨q, rfl⟩ := mem_handOverActs ha
              exact .inl ⟨_, rfl, built_of_treeRef ht⟩
          · cases ha
  | onTree engine index c =>
      rw [commandActs] at ha
      split at ha
      · exact licensed_treeActs ha
      · cases ha
  | _ => cases ha

/-- Every act of a step is licensed. -/
theorem licensed (ha : a ∈ s.frameActs i f) : s.Licensed f a := by
  cases f with
  | command c => exact licensed_commandActs ha
  | openRequest call =>
      rcases List.mem_cons.1 ha with rfl | ha
      · exact rfl
      · split at ha
        · next r hr =>
            obtain ⟨q, rfl⟩ := mem_launchActs ha
            exact .inr (.inl ⟨call, r, rfl, rfl, hr⟩)
        · cases ha
  | claimTree call item component handle listener =>
      rcases List.mem_cons.1 ha with rfl | ha
      · exact rfl
      · split at ha
        · next store tree hc =>
            obtain ⟨q, rfl⟩ := mem_launchActs ha
            have hlive := (live?_of_claimTree (.inl hc)).1
            exact .inr (.inr ⟨call, item, component, handle, listener, tree, rfl, rfl, hc ▸ hlive⟩)
        · next store config tree hc =>
            obtain ⟨q, rfl⟩ := mem_launchActs ha
            have hlive := (live?_of_claimTree (.inr ⟨config, hc⟩)).1
            exact .inr (.inr ⟨call, item, component, handle, listener, tree, rfl, rfl, hc ▸ hlive⟩)
        · cases ha
  | layout l sequel stage =>
      cases stage with
      | enter =>
          obtain rfl := List.mem_singleton.1 ha
          trivial
      | settle size =>
          obtain rfl := List.mem_singleton.1 ha
          exact ⟨sequel, rfl⟩
      | notifyMeasured size ready =>
          simp only [frameActs, listenerActs, store_push] at ha
          split at ha
          · next w hw =>
              split at ha
              · next hres =>
                  obtain rfl := List.mem_singleton.1 ha
                  refine ⟨isOfGeneration_of_resolve? (s := s.push i _) hres, .inr ?_⟩
                  obtain ⟨listener, hl, hw⟩ := Option.bind_eq_some_iff.1 hw
                  obtain ⟨x, hx, hl⟩ := Option.bind_eq_some_iff.1 hl
                  split at hw
                  · exact ⟨l.tree, x, listener, hx, hl, hw⟩
                  · cases hw
              · cases ha
          · cases ha
      | deliver outcome =>
          cases sequel with
          | commit r =>
              cases outcome with
              | ok size =>
                  obtain rfl := List.mem_singleton.1 ha
                  exact ⟨l, rfl⟩
              | error failure => cases ha
          | background => cases outcome <;> cases ha
          | reply => cases outcome <;> cases ha
      | _ => cases ha
  | confirm r =>
      obtain rfl := List.mem_singleton.1 ha
      exact rfl
  | giveBack h =>
      obtain rfl := List.mem_singleton.1 ha
      exact ⟨rfl, rfl⟩
  | runWaiting q remaining count =>
      rw [frameActs] at ha
      split at ha
      · cases ha
      · obtain rfl := List.mem_singleton.1 ha
        trivial
  | serve q =>
      obtain rfl := List.mem_singleton.1 ha
      trivial
  | _ => cases ha

/-! ## Soundness -/

structure Sound (s : Session) : Prop where
  owned : s.store.Owned
  frames : ∀ j, ∀ f ∈ s.work j, f.Sound s.store
  handles : ∀ h, s.Holds h → h < s.store.holders.length
  weaks : ∀ w, s.Keeps w → s.store.Issued w
  listeners : ∀ w, s.store.Listens w → s.store.Issued w
  waiting : ∀ l, s.store.Waits l → s.store.Built l.tree
  idle : ∀ p h, s.store.Idles p h → h < s.store.holders.length

theorem sound_of_mem_launchFrames {t t' : Store} {r : Request} (ht : t.Built r.tree)
    (hc : r.item.value.component? = some r.component) (hh : r.call.holder < t.holders.length)
    (hf : f ∈ launchFrames t' r) : f.Sound t := by
  rcases of_mem_launchFrames hf with rfl | rfl | rfl
  · exact ht
  · exact ⟨ht, hc, hh⟩
  · exact ⟨ht, rfl, hc, hh⟩

theorem lt_of_getElem? {t : Store} {h : Nat} {x : Holder} (hx : t.holders[h]? = some x) :
    h < t.holders.length := (List.getElem?_eq_some_iff.1 hx).1

/-- The frames that a sound frame leads to are sound. -/
theorem sound_of_ensues (hs : Sound s) (hf : f.Sound s.store) {fs : List Frame}
    (he : Ensues s f fs) {g : Frame} (hg : g ∈ fs) :
    g.Sound (s.store.acts (s.frameActs i f)) := by
  have hlater {g : Frame} (h : g.Sound s.store) : g.Sound (s.store.acts (s.frameActs i f)) :=
    Store.acts_induction (P := g.Sound) (fun t a ht => ht.act a) h _
  cases he with
  | nothing => cases hg
  | request c hh =>
      obtain rfl := List.mem_singleton.1 hg
      exact hlater (hs.handles _ hh)
  | release hn =>
      obtain rfl := List.mem_singleton.1 hg
      exact hlater (hs.handles _ ⟨_, hn⟩)
  | reply c hl =>
      obtain rfl := List.mem_singleton.1 hg
      exact hlater hl
  | background c hl =>
      obtain rfl := List.mem_singleton.1 hg
      exact hlater hl
  | runWaiting =>
      obtain rfl := List.mem_singleton.1 hg
      trivial
  | script step rest =>
      simp only [List.mem_cons, List.not_mem_nil, or_false] at hg
      rcases hg with rfl | rfl | rfl <;> trivial
  | opened call =>
      unfold openingFrames at hg
      split at hg
      · next store r ho =>
          obtain ⟨rfl, hc, hlive, x, hx, -⟩ := live?_of_openRequest (congrArg Prod.snd ho)
          exact hlater (sound_of_mem_launchFrames (hs.owned.built _ _ hlive) hc
            (lt_of_getElem? hx) hg)
      · next item component handle ho =>
          obtain rfl := List.mem_singleton.1 hg
          obtain ⟨hc, x, hx, -, -, rfl⟩ := of_vacant_openRequest (congrArg Prod.snd ho)
          exact hlater ⟨rfl, Store.issued_downgrade hx, hc, nofun⟩
      · next item component factory handle ho =>
          obtain ⟨hc, x, hx, -, -, rfl⟩ := of_vacant_openRequest (congrArg Prod.snd ho)
          simp only [List.mem_cons, List.not_mem_nil, or_false] at hg
          rcases hg with rfl | rfl
          · trivial
          · refine hlater ⟨rfl, Store.issued_downgrade hx, hc, fun l hl => ?_⟩
            obtain rfl := Option.some.inj hl
            rfl
      · cases hg
  | claimed call item component handle listener =>
      obtain ⟨-, -, hc, -⟩ := hf
      -- the tree may be new, so it is looked for in the store after the claim
      have hclaimed {store : Store} {tree : TreeRef}
          (hclaim : (s.store.claimTree call item component handle listener).1 = store)
          (hlive : store.live? call.holder = some tree)
          (hx : ∃ x, s.store.holders[call.holder]? = some x ∧ x.generation = handle.generation)
          (hg : g ∈ launchFrames store { call, item, component, tree }) :
          g.Sound
            (s.store.acts (s.frameActs i (.claimTree call item component handle listener))) := by
        obtain ⟨x, hx, -⟩ := hx
        have hact : s.store.act (.claimTree call item component handle listener) = store := hclaim
        have howned := hs.owned.act (.claimTree call item component handle listener)
        rw [hact] at howned
        have hlt : call.holder < store.holders.length :=
          lt_of_getElem? (hact ▸ s.store.holders_act _ hx)
        have hsound : g.Sound store :=
          sound_of_mem_launchFrames (howned.built _ _ hlive) hc hlt hg
        rw [frameActs, claimActs, Store.acts_cons, hact]
        exact Store.acts_induction (P := g.Sound) (fun t a ht => ht.act a) hsound _
      unfold claimFrames at hg
      split at hg
      · next store tree hclaim =>
          obtain ⟨hlive, hx⟩ := live?_of_claimTree (.inl hclaim)
          exact hclaimed (congrArg Prod.fst hclaim) hlive hx hg
      · next store config tree hclaim =>
          obtain ⟨hlive, hx⟩ := live?_of_claimTree (.inr ⟨config, hclaim⟩)
          exact hclaimed (congrArg Prod.fst hclaim) hlive hx hg
      · cases hg
  | layout l sequel h =>
      obtain rfl := List.mem_singleton.1 hg
      exact hlater (by cases sequel <;> exact hf)
  | dequeued remaining count hq hl =>
      simp only [List.mem_cons, List.not_mem_nil, or_false] at hg
      rcases hg with rfl | rfl
      · exact hlater (hs.waiting _ ⟨_, List.mem_of_getElem? hq, hl⟩)
      · trivial
  | served hq hl =>
      simp only [List.mem_cons, List.not_mem_nil, or_false] at hg
      rcases hg with rfl | rfl
      · exact hlater (hs.waiting _ ⟨_, List.mem_of_getElem? hq, hl⟩)
      · trivial

theorem eq_of_resolve? {w : WeakHandle} {h : Nat} (hw : s.resolve? w = some h) :
    w.holder = h ∧ s.store.isOfGeneration w := by
  unfold resolve? at hw
  split at hw
  · next hw' => exact ⟨Option.some.inj hw, (Bool.and_eq_true_iff.1 hw').2⟩
  · cases hw

theorem frameActs_eq_of_acquire {p : Nat} {item : Shared Descriptor} {policy : Policy}
    {factory : Option Factory} (h : .acquire p item policy factory ∈ s.frameActs i f) :
    s.frameActs i f = [.acquire p item policy factory] := by
  obtain ⟨-, name, settings, pool, into, rfl, hitem, hpolicy, hpool⟩ := licensed h
  rw [frameActs_command, commandActs_acquire hitem hpolicy hpool]

/-- Nothing else is done in the step in which an item gets a holder. -/
theorem eq_nil_of_acquire {as bs : List Store.Act} {p : Nat} {item : Shared Descriptor}
    {policy : Policy} {factory : Option Factory}
    (has : s.frameActs i f = as ++ .acquire p item policy factory :: bs) : as = [] ∧ bs = [] := by
  have hmem : .acquire p item policy factory ∈ s.frameActs i f := by
    rw [has]
    exact List.mem_append_cons_self
  simpa [List.append_eq_singleton_iff] using has.symm.trans (frameActs_eq_of_acquire hmem)

/-- A claim is the first thing that is done in the second step of a request. -/
theorem eq_nil_of_claimTree {as bs : List Store.Act} {call : Call} {item : Shared Descriptor}
    {component : Component} {handle : WeakHandle} {listener : Option MeasureListener}
    (has : s.frameActs i f = as ++ .claimTree call item component handle listener :: bs) :
    as = [] ∧ f = .claimTree call item component handle listener := by
  have hmem : .claimTree call item component handle listener ∈ s.frameActs i f := by
    rw [has]
    exact List.mem_append_cons_self
  obtain rfl : f = .claimTree call item component handle listener := licensed hmem
  refine ⟨?_, rfl⟩
  cases as with
  | nil => rfl
  | cons b as =>
      have htail : (s.claimActs call item component handle listener).tail =
          as ++ .claimTree call item component handle listener :: bs := congrArg List.tail has
      have hlater : .claimTree call item component handle listener ∈
          (s.claimActs call item component handle listener).tail := by
        rw [htail]
        exact List.mem_append_cons_self
      obtain ⟨q, l, heq⟩ := mem_tail_claimActs hlater
      cases heq

/-- An item gets a holder in a step of its own, or none does. -/
theorem acquires_alone (s : Session) (i : Nat) (f : Frame) :
    (∃ p item policy factory, s.frameActs i f = [.acquire p item policy factory]) ∨
      ∀ p item policy factory, .acquire p item policy factory ∉ s.frameActs i f := by
  by_cases hA : ∃ p item policy factory, .acquire p item policy factory ∈ s.frameActs i f
  · obtain ⟨p, item, policy, factory, ha⟩ := hA
    exact .inl ⟨p, item, policy, factory, frameActs_eq_of_acquire ha⟩
  · exact .inr fun p item policy factory ha => hA ⟨p, item, policy, factory, ha⟩

theorem taken_lt (s : Store) (hidle : ∀ p h, s.Idles p h → h < s.holders.length) (p : Nat)
    (item : Shared Descriptor) (policy : Policy) (factory : Option Factory) :
    (s.takeHolder p).2.1 < (s.act (.acquire p item policy factory)).holders.length := by
  rw [Store.length_acquire]
  cases hp : s.offered? p with
  | none =>
      rw [s.takeHolder_of_not_offered? hp]
      exact Nat.lt_succ_self _
  | some h =>
      rw [s.takeHolder_of_offered? hp]
      exact hidle p h (.of_offered? s hp)

theorem Sound.turn (hs : Sound s) (hf : f.Sound s.store) (ht : Turn s i f s') : Sound s' := by
  have hlen : s.store.holders.length ≤ s'.store.holders.length :=
    ht.store ▸ s.store.length_le_acts _
  have hlater {g : Frame} (h : g.Sound s.store) : g.Sound s'.store :=
    ht.store ▸ Store.acts_induction (P := g.Sound) (fun t a ht => ht.act a) h _
  have hissued {w : WeakHandle} (h : s.store.Issued w) : s'.store.Issued w :=
    ht.store ▸ Store.acts_induction (P := (·.Issued w)) (fun t a ht => ht.act a) h _
  have hbuilt {t : TreeRef} (h : s.store.Built t) : s'.store.Built t :=
    ht.store ▸ Store.acts_induction (P := (·.Built t)) (fun t a ht => ht.act t a) h _
  have howned : s'.store.Owned :=
    ht.store ▸ Store.acts_induction (fun t a ht => ht.act a) hs.owned _
  refine ⟨howned, ?_, ?_, ?_, ?_, ?_, ?_⟩
  · intro j g hg
    rcases ht.mem_work hg with hg | hg | ⟨-, fs, hfs, hg, -⟩
    · exact hlater (hs.frames j g hg)
    · cases hg <;> trivial
    · rw [ht.store]
      exact sound_of_ensues hs hf hfs hg
  · intro h hh
    rcases ht.handles h hh with hh | ⟨p, item, policy, factory, ha, rfl⟩ | ⟨w, hw, hres⟩
    · exact Nat.lt_of_lt_of_le (hs.handles h hh) hlen
    · rw [ht.store, frameActs_eq_of_acquire ha]
      exact taken_lt s.store hs.idle p item policy factory
    · obtain ⟨rfl, -⟩ := eq_of_resolve? hres
      exact Nat.lt_of_lt_of_le (hs.weaks w hw).lt hlen
  · intro w hw
    rcases ht.weaks w hw with hw | ⟨c, h, x, -, -, hx, rfl⟩
    · exact hissued (hs.weaks w hw)
    · exact hissued (Store.issued_downgrade hx)
  · intro w hw
    rw [ht.store] at hw
    rcases s.store.listens_acts hw with
      hw | ⟨l, hl, ⟨e, c, ha, hc⟩ | ⟨call, item, component, handle, ha⟩⟩
    · exact hissued (hs.listeners w hw)
    · have hnone : l.handle = none := licensed ha l hc
      rw [hnone] at hl
      cases hl
    · obtain rfl : f = .claimTree call item component handle (some l) := licensed ha
      obtain ⟨-, hhandle, -, hlistener⟩ := hf
      obtain rfl := Option.some.inj (hl.symm.trans (hlistener l rfl))
      exact hissued hhandle
  · intro l hl
    rw [ht.store] at hl
    rcases s.store.waits_acts hl with hl | ⟨q, ha⟩ | ⟨queue, ha, hl⟩
    · exact hbuilt (hs.waiting l hl)
    · rcases licensed ha with ⟨c, -, hl⟩ | ⟨call, r, -, rfl, hr⟩ |
        ⟨call, item, component, handle, listener, tree, rfl, htree, hlive⟩
      · exact hbuilt hl
      · exact hbuilt (hs.owned.built _ _ (live?_of_openRequest hr).2.2.1)
      · have hclaimed := (hs.owned.act (.claimTree call item component handle listener)).built _ _
          hlive
        rw [ht.store, frameActs, claimActs, Store.acts_cons, htree]
        exact Store.acts_induction (P := (·.Built tree)) (fun t a ht => ht.act t a) hclaimed _
    · have hempty : queue.waiting = [] := licensed ha
      rw [hempty] at hl
      cases hl
  · intro p h hi
    rw [ht.store] at hi
    rcases s.store.idles_acts hi with hi | ha | ⟨pool, ha, hh⟩
    · exact Nat.lt_of_lt_of_le (hs.idle p h hi) hlen
    · obtain ⟨rfl, -⟩ := licensed ha
      exact Nat.lt_of_lt_of_le hf hlen
    · have hempty : pool.idle = [] := licensed ha
      rw [hempty] at hh
      cases hh

/-! ## Runs -/

/-- A session with the same store and registers is sound if all its new frames are. -/
theorem Sound.of_work (hs : Sound s) (hstore : s'.store = s.store)
    (hhandles : s'.registers.handles = s.registers.handles)
    (hweaks : s'.registers.weaks = s.registers.weaks)
    (hwork : ∀ j, ∀ f ∈ s'.work j, f ∈ s.work j ∨ f.Sound s.store) : Sound s' := by
  constructor
  · exact hstore ▸ hs.owned
  · intro j f hf
    rw [hstore]
    rcases hwork j f hf with hf | hf
    · exact hs.frames j f hf
    · exact hf
  · intro h hh
    rw [hstore]
    exact hs.handles h (by rwa [Holds, ← hhandles])
  · intro w hw
    rw [hstore]
    exact hs.weaks w (by rwa [Keeps, ← hweaks])
  · exact hstore ▸ hs.listeners
  · exact hstore ▸ hs.waiting
  · exact hstore ▸ hs.idle

theorem work_off_suffix (hf : s.top? i = some f) (j : Nat) : (s.off i).work j <:+ s.work j := by
  by_cases hj : j = i
  · subst hj
    rw [work_eq_of_top? hf]
    exact List.suffix_append _ _
  · exact work_off s hj ▸ List.suffix_refl _

theorem Sound.off (hs : Sound s) (hf : s.top? i = some f) : Sound (s.off i) :=
  hs.of_work rfl rfl rfl fun j _ hg => .inl ((work_off_suffix hf j).subset hg)

theorem Sound.top (hs : Sound s) (hf : s.top? i = some f) : f.Sound s.store := by
  cases hserve : f.isServe with
  | true =>
      cases f with
      | serve q => trivial
      | _ => cases hserve
  | false => exact hs.frames i f (mem_work_of_top? hf hserve)

theorem Sound.next? {m : Moment} (hs : Sound s) (h : s.next? m = some s') : Sound s' := by
  cases happens_of_next? h with
  | give c hi =>
      refine hs.of_work rfl rfl rfl fun j f hf => ?_
      rcases mem_work_push hf with hf | hf
      · simp only [List.mem_cons, List.not_mem_nil, or_false] at hf
        rcases hf with rfl | rfl <;> exact .inr trivial
      · exact .inl hf
  | carry hf ht => exact (hs.off hf).turn (hs.top hf) ht
  | look k =>
      have hl := s.like_view? k
      exact hs.of_work hl.store hl.handles hl.weaks fun j f hf => .inl (hl.work j ▸ hf)

theorem work_ofProgram (p : Program) (j : Nat) : (ofProgram p).work j = [] := by
  cases j with
  | zero => rfl
  | succ j => rfl

theorem sound_ofProgram (p : Program) : Sound (ofProgram p) := by
  constructor
  · constructor
    · intro h t ht
      cases ht
    · intro h k t ht
      cases ht
  · intro j f hf
    rw [work_ofProgram] at hf
    cases hf
  · rintro h ⟨name, hn⟩
    cases hn
  · rintro w ⟨name, hn⟩
    cases hn
  · rintro w ⟨t, x, l, hx, -⟩
    cases hx
  · rintro l ⟨queue, hq, -⟩
    cases hq
  · rintro p h ⟨pool, hp, hh⟩
    cases p with
    | zero =>
        obtain rfl := Option.some.inj hp
        cases hh
    | succ p => cases hp

theorem Reachable.sound (h : s.Reachable) : Sound s := by
  obtain ⟨p, ms, hms⟩ := h
  exact follow?_induction (fun _ _ _ h hs => hs.next? h) hms (sound_ofProgram p)

end Session

end Recycler

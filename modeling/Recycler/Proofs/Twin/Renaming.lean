import Recycler.Proofs.Session.Rest

/-!
# Renaming holders

Two sessions may do the same with different instances of holders, where one takes a holder from a
pool and the other allocates one. A `Renaming` says which instance of the second session stands for
an instance of the first, and which weak handle for a weak handle.

A holder and the one that stands for it are `Paired` if they agree in all but the generation, and
weak handles that are made from now on go with each other. Stores are twins for a set of holders if
these are paired and everything else is the same under the renaming, the pools apart: of a pool
only the capacity matters. `Twin.act` says that every act keeps twins, as long as it is about paired
holders. An item that acquires one makes a new pair (`Twin.acquire`).
-/

namespace Recycler

structure Renaming where
  holder : Nat → Nat
  handle : WeakHandle → WeakHandle

variable {κ α β : Type} {ρ : Renaming}

/-! ## Keyed collections -/

namespace Keyed

/-- A collection with a function applied to every value. -/
def mapValues (m : Keyed κ α) (f : α → β) : Keyed κ β where
  entries := m.entries.map fun e => (e.1, f e.2)
  distinct := by
    rw [List.map_map]
    exact m.distinct

theorem eq_of_entries {m n : Keyed κ α} (h : m.entries = n.entries) : m = n := by
  cases m
  cases n
  cases h
  rfl

theorem mapValues_congr {m : Keyed κ α} {f g : α → β} (h : ∀ e ∈ m.entries, f e.2 = g e.2) :
    m.mapValues f = m.mapValues g :=
  eq_of_entries (List.map_congr_left fun e he => by rw [h e he])

variable [DecidableEq κ]

theorem find_map (f : α → β) (k : κ) (es : List (κ × α)) :
    find k (es.map fun e => (e.1, f e.2)) = (find k es).map f := by
  induction es with
  | nil => rfl
  | cons e es ih =>
      rw [List.map_cons, find_cons, find_cons, ih]
      split <;> rfl

theorem get?_mapValues (m : Keyed κ α) (f : α → β) (k : κ) :
    (m.mapValues f).get? k = (m.get? k).map f := find_map f k m.entries

theorem map_insertEntry (f : α → β) (k : κ) (a : α) (es : List (κ × α)) :
    (insertEntry k a es).map (fun e => (e.1, f e.2)) =
      insertEntry k (f a) (es.map fun e => (e.1, f e.2)) := by
  induction es with
  | nil => rfl
  | cons e es ih =>
      rw [List.map_cons, insertEntry_cons, insertEntry_cons]
      split
      · rfl
      · rw [List.map_cons, ih]

theorem mapValues_put (m : Keyed κ α) (f : α → β) (k : κ) (a : α) :
    (m.put k a).mapValues f = (m.mapValues f).put k (f a) :=
  eq_of_entries (map_insertEntry f k a m.entries)

theorem mapValues_erase (m : Keyed κ α) (f : α → β) (k : κ) :
    (m.erase k).mapValues f = (m.mapValues f).erase k := by
  apply eq_of_entries
  change (m.entries.filter (·.1 ≠ k)).map (fun e => (e.1, f e.2)) =
    (m.entries.map fun e => (e.1, f e.2)).filter (·.1 ≠ k)
  rw [List.filter_map]
  rfl

end Keyed

/-! ## What a renaming does to the data of a session -/

def MeasureListener.rename (ρ : Renaming) (l : MeasureListener) : MeasureListener :=
  { l with handle := l.handle.map ρ.handle }

def Tree.Config.rename (ρ : Renaming) (c : Tree.Config) : Tree.Config :=
  { c with listener := c.listener.map (·.rename ρ) }

def Tree.rename (ρ : Renaming) (t : Tree) : Tree := { t with config := t.config.rename ρ }

def Engine.rename (ρ : Renaming) (e : Engine) : Engine :=
  { e with trees := e.trees.map (·.rename ρ) }

def Call.rename (ρ : Renaming) (c : Call) : Call := { c with holder := ρ.holder c.holder }

def Request.rename (ρ : Renaming) (r : Request) : Request := { r with call := r.call.rename ρ }

namespace Store

def Act.rename (ρ : Renaming) : Act → Act
  | .change h c => .change (ρ.holder h) c
  | .advance h p => .advance (ρ.holder h) p
  | .evict h => .evict (ρ.holder h)
  | .reset h => .reset (ρ.holder h)
  | .setReadyListener h l => .setReadyListener (ρ.holder h) l
  | .reportWindow h position w => .reportWindow (ρ.holder h) position w
  | .openRequest call => .openRequest (call.rename ρ)
  | .claimTree call item component handle listener =>
    .claimTree (call.rename ρ) item component (ρ.handle handle) (listener.map (·.rename ρ))
  | .commitLayout r size => .commitLayout (r.rename ρ) size
  | .confirmLayout r => .confirmLayout (r.rename ρ)
  | .writeHeight w height => .writeHeight (ρ.handle w) height
  | .build e config => .build e (config.rename ρ)
  | .giveBack h referred => .giveBack (ρ.holder h) referred
  | a => a

/-! ## Pairs -/

/-- A holder and the one that stands for it agree in all but the generation, and go on counting
generations from where they are. -/
def Paired (ρ : Renaming) (u u' : Store) (h : Nat) : Prop :=
  ∃ x g, u.holders[h]? = some x ∧ u'.holders[ρ.holder h]? = some { x with generation := g } ∧
    ∀ n, ρ.handle ⟨h, x.generation + n⟩ = ⟨ρ.holder h, g + n⟩

/-- The capacities of the pools. -/
def capacities (u : Store) : List (Option UInt64) := u.pools.map (Option.map (·.capacity))

/-- Two stores are the same but for their holders and what pools keep. -/
structure Alike (ρ : Renaming) (u u' : Store) : Prop where
  engines : u'.engines = u.engines.map (·.rename ρ)
  gates : u'.gates = u.gates
  queues : u'.queues = u.queues
  capacities : u'.capacities = u.capacities

/-- In twins the holders that stand for those in `P` are paired with them as well. -/
structure Twin (ρ : Renaming) (P : Nat → Prop) (u u' : Store) : Prop extends Alike ρ u u' where
  holders : ∀ h, P h → Paired ρ u u' h

/-- Whether acts on two stores go with each other: they are about paired holders, and a handle is of
the current generation of its holder in both stores or in none. -/
def Act.Fits (ρ : Renaming) (P : Nat → Prop) (u u' : Store) : Act → Prop
  | .acquire .. => False
  | .claimTree call _ _ handle _ => P call.holder ∧ handle.holder = call.holder ∧
    (ρ.handle handle).holder = ρ.holder call.holder ∧
    u'.isOfGeneration (ρ.handle handle) = u.isOfGeneration handle
  | .writeHeight w _ => P w.holder ∧ u.isOfGeneration w
  | .reportWindow h _ _ => P h
  | a => ∀ h, a.subject? = some h → P h

variable {P : Nat → Prop} {u u' : Store} {h : Nat}

theorem map_modify {l : List α} {f : α → α} {f' : β → β} {g : α → β} (n : Nat)
    (hg : ∀ a, g (f a) = f' (g a)) : (l.modify n f).map g = (l.map g).modify n f' := by
  apply List.ext_getElem?
  intro j
  rw [List.getElem?_map, List.getElem?_modify, List.getElem?_modify, List.getElem?_map]
  cases l[j]? with
  | none => rfl
  | some a =>
      by_cases hn : n = j
      · simp [hn, hg]
      · simp [hn]

theorem Alike.engine (ht : Alike ρ u u') (e : Nat) :
    u'.engines[e]? = u.engines[e]?.map (·.rename ρ) := by
  rw [ht.engines, List.getElem?_map]

theorem Alike.tree? (ht : Alike ρ u u') (t : TreeRef) :
    u'.tree? t = (u.tree? t).map (·.rename ρ) := by
  rw [Store.tree?, Store.tree?, ht.engine]
  cases u.engines[t.engine]? with
  | none => rfl
  | some e => exact List.getElem?_map

theorem Twin.live? (ht : Twin ρ P u u') (hh : P h) :
    (u'.holders[ρ.holder h]?.bind fun x => x.state.slot.tree?) =
      u.holders[h]?.bind fun x => x.state.slot.tree? := by
  obtain ⟨x, g, hx, hx', -⟩ := ht.holders h hh
  rw [hx, hx']
  rfl

/-! ## Acts -/

theorem Alike.modifyEngine (h : Alike ρ u u') {e : Nat} {f f' : Engine → Engine}
    (hf : ∀ a : Engine, (f a).rename ρ = f' (a.rename ρ)) :
    Alike ρ (u.modifyEngine e f) (u'.modifyEngine e f') :=
  { h with
    engines := by
      unfold Store.modifyEngine
      rw [map_modify e hf, ← h.engines] }

theorem Alike.modifyTree (h : Alike ρ u u') {t : TreeRef} {f f' : Tree → Tree}
    (hf : ∀ a : Tree, (f a).rename ρ = f' (a.rename ρ)) :
    Alike ρ (u.modifyTree t f) (u'.modifyTree t f') :=
  h.modifyEngine fun a => by
    unfold Engine.modifyTree Engine.rename
    rw [map_modify t.index hf]

theorem Alike.modifyHolder (h : Alike ρ u u') (k k' : Nat) (f f' : Holder → Holder) :
    Alike ρ (u.modifyHolder k f) (u'.modifyHolder k' f') :=
  ⟨h.engines, h.gates, h.queues, h.capacities⟩

theorem capacities_modifyPool (u : Store) (p : Nat) {f : Pool → Pool}
    (hf : ∀ pool, (f pool).capacity = pool.capacity) :
    (u.modifyPool p f).capacities = u.capacities := by
  have hsame (pool : Option Pool) :
      (pool.map f).map (·.capacity) = id (pool.map (·.capacity)) := by
    cases pool with
    | none => rfl
    | some pool => exact congrArg some (hf pool)
  unfold capacities Store.modifyPool
  rw [map_modify p hsame]
  exact List.modify_id ..

theorem Alike.modifyGate (h : Alike ρ u u') (g : Nat) (f : Gate → Gate) :
    Alike ρ (u.modifyGate g f) (u'.modifyGate g f) :=
  { h with gates := congrArg (·.modify g f) h.gates }

theorem Alike.modifyQueue (h : Alike ρ u u') (q : Nat) (f : Queue → Queue) :
    Alike ρ (u.modifyQueue q f) (u'.modifyQueue q f) :=
  { h with queues := congrArg (·.modify q f) h.queues }

theorem Alike.modifyPool (h : Alike ρ u u') (p p' : Nat) {f f' : Pool → Pool}
    (hf : ∀ pool, (f pool).capacity = pool.capacity)
    (hf' : ∀ pool, (f' pool).capacity = pool.capacity) :
    Alike ρ (u.modifyPool p f) (u'.modifyPool p' f') :=
  { h with
    capacities := by
      rw [capacities_modifyPool u p hf, capacities_modifyPool u' p' hf', h.capacities] }

/-- What a pool keeps is all that matters to a holder that is offered back. -/
theorem giveBack_eq (u : Store) (h : Nat) (referred : Bool) :
    ∃ p f, (∀ pool : Pool, (f pool).capacity = pool.capacity) ∧
      (u.giveBack h referred).1 = u.modifyPool p f := by
  have hsame : u = u.modifyPool 0 id := by simp [Store.modifyPool]
  unfold giveBack
  split
  · exact ⟨0, id, fun _ => rfl, hsame⟩
  · split
    · exact ⟨0, id, fun _ => rfl, hsame⟩
    · split
      · exact ⟨_, Pool.drop, fun _ => rfl, rfl⟩
      · exact ⟨_, _, fun pool => capacity_offer pool h, rfl⟩

theorem rename_build (e : Engine) (c : Tree.Config) :
    (e.build c).rename ρ = (e.rename ρ).build (c.rename ρ) := by
  unfold Engine.build Engine.rename
  rw [List.map_append]
  rfl

theorem Twin.evicted (ht : Twin ρ P u u') (state : Holder.State) :
    u'.evicted state = u.evicted state := by
  unfold Store.evicted
  cases state.slot.tree? with
  | none => rfl
  | some t =>
      simp only [ht.engine, ht.tree?]
      cases u.engines[t.engine]? with
      | none => rfl
      | some e =>
          cases u.tree? t with
          | none => rfl
          | some tree => rfl

theorem Twin.supplied (ht : Twin ρ P u u') (e : Nat) (state : Holder.State) :
    u'.supplied e state = u.supplied e state := by
  unfold Store.supplied
  rw [ht.engine]
  cases u.engines[e]? with
  | none => rfl
  | some engine => simp [Engine.rename]

/-- A handle of the current generation of a holder goes with one of the holder that stands for
it. -/
theorem Twin.handle {w : WeakHandle} (ht : Twin ρ P u u') (hw : P w.holder)
    (hgen : u.isOfGeneration w) : ∃ x g, u'.holders[ρ.holder w.holder]? = some x ∧
      x.generation = g ∧ ρ.handle w = ⟨ρ.holder w.holder, g⟩ := by
  obtain ⟨x, g, hx, hx', hhandle⟩ := ht.holders w.holder hw
  rw [u.isOfGeneration_eq hx, decide_eq_true_eq] at hgen
  refine ⟨_, g, hx', rfl, ?_⟩
  rw [← Nat.add_zero g, ← hhandle 0, Nat.add_zero, hgen]

/-- What an act makes of a holder, it makes of the one that stands for it. -/
theorem Twin.onHolder {a : Act} {x : Holder} {g : Nat}
    (inj : ∀ a b, P a → P b → ρ.holder a = ρ.holder b → a = b)
    (ht : Twin ρ P u u') (ha : a.Fits ρ P u u') (hh : P h) (hx : u.holders[h]? = some x)
    (hx' : u'.holders[ρ.holder h]? = some { x with generation := g })
    (hhandle : ρ.handle ⟨h, x.generation⟩ = ⟨ρ.holder h, g⟩) :
    (a.rename ρ).onHolder u' (ρ.holder h) { x with generation := g } =
      { a.onHolder u h x with generation := if a.resets h then g + 1 else g } := by
  have hsame {k : Nat} (hk : P k) : (ρ.holder k = ρ.holder h) = (k = h) :=
    propext ⟨fun e => inj k h hk hh e, fun e => e ▸ rfl⟩
  cases a with
  | acquire => cases ha
  | reset k =>
      simp only [Act.rename, Act.onHolder, Act.resets, hsame (ha k rfl), decide_eq_true_eq]
      split <;> rfl
  | evict k =>
      simp only [Act.rename, Act.onHolder, Act.resets, hsame (ha k rfl), ht.evicted]
      split <;> rfl
  | change k c =>
      simp only [Act.rename, Act.onHolder, Act.resets, hsame (ha k rfl)]
      split <;> rfl
  | advance k p =>
      simp only [Act.rename, Act.onHolder, Act.resets, hsame (ha k rfl)]
      split <;> rfl
  | setReadyListener k l =>
      simp only [Act.rename, Act.onHolder, Act.resets, hsame (ha k rfl)]
      split <;> rfl
  | openRequest call =>
      simp only [Act.rename, Act.onHolder, Act.resets, Call.rename, hsame (ha call.holder rfl)]
      split <;> rfl
  | claimTree call item component handle listener =>
      obtain ⟨hcall, hw, hw', hgen⟩ := ha
      simp only [Act.rename, Act.onHolder, Act.resets, Call.rename, hsame hcall, ht.supplied]
      by_cases hk : call.holder = h
      · subst hk
        rw [u.isOfGeneration_eq (hw.symm ▸ hx), u'.isOfGeneration_eq (hw'.symm ▸ hx'),
          decide_eq_decide] at hgen
        simp only [hgen]
        split <;> rfl
      · simp [hk]
  | commitLayout r size =>
      simp only [Act.rename, Act.onHolder, Act.resets, Request.rename, Call.rename,
        hsame (ha r.call.holder rfl)]
      split <;> rfl
  | confirmLayout r =>
      simp only [Act.rename, Act.onHolder, Act.resets, Request.rename, Call.rename,
        hsame (ha r.call.holder rfl)]
      split <;> rfl
  | writeHeight w height =>
      obtain ⟨hw, hgen⟩ := ha
      simp only [Act.rename, Act.onHolder, Act.resets]
      obtain ⟨-, g', -, -, hw'⟩ := ht.handle hw hgen
      by_cases hk : w.holder = h
      · subst hk
        rw [u.isOfGeneration_eq hx, decide_eq_true_eq] at hgen
        have hw' : ρ.handle w = ⟨ρ.holder w.holder, g⟩ := by rw [← hhandle, hgen]
        simp [hw', hgen]
      · simp [hw', hsame hw, hk]
  | _ => rfl

/-- A holder and the one that stands for it stay paired under an act on each. -/
theorem Paired.act {a : Act} (inj : ∀ a b, P a → P b → ρ.holder a = ρ.holder b → a = b)
    (ht : Twin ρ P u u') (ha : a.Fits ρ P u u') (hh : P h) :
    Paired ρ (u.act a) (u'.act (a.rename ρ)) h := by
  obtain ⟨x, g, hx, hx', hhandle⟩ := ht.holders h hh
  have hy' := u'.holders_act (a.rename ρ) hx'
  rw [ht.onHolder inj ha hh hx hx' (hhandle 0)] at hy'
  refine ⟨_, _, u.holders_act a hx, hy', fun n => ?_⟩
  rw [generation_onHolder]
  split
  · have hnext := hhandle (n + 1)
    rwa [Nat.add_comm n 1, ← Nat.add_assoc, ← Nat.add_assoc] at hnext
  · exact hhandle n

theorem Twin.isCurrent {r : Request} (ht : Twin ρ P u u') (hh : P r.call.holder) :
    u'.isCurrent (r.rename ρ) = u.isCurrent r := by
  obtain ⟨x, g, hx, hx', -⟩ := ht.holders _ hh
  rw [u.isCurrent_eq hx, u'.isCurrent_eq (r := r.rename ρ) hx']
  rfl

theorem Alike.enterLayout (h : Alike ρ u u') (t : TreeRef) :
    Alike ρ (u.enterLayout t).1 (u'.enterLayout t).1 ∧
      (u'.enterLayout t).2 = (u.enterLayout t).2 := by
  unfold Store.enterLayout
  rw [h.engine, h.tree?]
  cases u.engines[t.engine]? with
  | none => exact ⟨h, rfl⟩
  | some e =>
      cases u.tree? t with
      | none => exact ⟨h, rfl⟩
      | some tree =>
          simp only [Option.map_some, Tree.rename, Engine.rename]
          split
          · exact ⟨h, rfl⟩
          · split
            · refine ⟨h.modifyEngine ?_, rfl⟩
              exact fun _ => rfl
            · split
              · exact ⟨h.modifyGate _ Gate.enter, rfl⟩
              · exact ⟨h, rfl⟩

theorem Alike.dequeue (h : Alike ρ u u') (q : Nat) :
    Alike ρ (u.dequeue q).1 (u'.dequeue q).1 ∧ (u'.dequeue q).2 = (u.dequeue q).2 := by
  unfold Store.dequeue
  rw [h.queues]
  split
  · exact ⟨h.modifyQueue q _, rfl⟩
  · exact ⟨h, rfl⟩

def Opening.rename (ρ : Renaming) : Opening → Opening
  | .live r => .live (r.rename ρ)
  | .vacant item component factory handle => .vacant item component factory (ρ.handle handle)
  | o => o

def Claim.rename (ρ : Renaming) : Claim → Claim
  | .built config tree => .built (config.rename ρ) tree
  | .refused config => .refused (config.rename ρ)
  | c => c

theorem Twin.openRequest {call : Call} (ht : Twin ρ P u u') (hh : P call.holder) :
    Alike ρ (u.openRequest call).1 (u'.openRequest (call.rename ρ)).1 ∧
      (u'.openRequest (call.rename ρ)).2 = (u.openRequest call).2.rename ρ := by
  obtain ⟨x, g, hx, hx', hhandle⟩ := ht.holders _ hh
  unfold Store.openRequest
  rw [hx, Call.rename, hx']
  dsimp only
  split
  · exact ⟨ht.toAlike, rfl⟩
  · split
    · exact ⟨ht.toAlike, rfl⟩
    · split
      · exact ⟨ht.modifyHolder .., rfl⟩
      · refine ⟨ht.modifyHolder .., ?_⟩
        have hmade : ρ.handle ⟨call.holder, x.generation⟩ = ⟨ρ.holder call.holder, g⟩ := hhandle 0
        simp only [Opening.rename, Holder.downgrade, hmade]

theorem Twin.claimTree {call : Call} {handle : WeakHandle} (ht : Twin ρ P u u')
    (item : Shared Descriptor) (component : Component) (listener : Option MeasureListener)
    (ha : (Act.claimTree call item component handle listener).Fits ρ P u u') :
    Alike ρ (u.claimTree call item component handle listener).1
        (u'.claimTree (call.rename ρ) item component (ρ.handle handle)
          (listener.map (·.rename ρ))).1 ∧
      (u'.claimTree (call.rename ρ) item component (ρ.handle handle)
          (listener.map (·.rename ρ))).2 =
        (u.claimTree call item component handle listener).2.rename ρ := by
  obtain ⟨hcall, hw, hw', hgen⟩ := ha
  obtain ⟨x, g, hx, hx', -⟩ := ht.holders _ hcall
  rw [u.isOfGeneration_eq (hw.symm ▸ hx), u'.isOfGeneration_eq (hw'.symm ▸ hx'),
    decide_eq_decide] at hgen
  unfold Store.claimTree
  rw [hx, Call.rename, hx', ht.engine]
  cases u.engines[call.engine]? with
  | none => exact ⟨ht.toAlike, rfl⟩
  | some e =>
      simp only [Option.map_some]
      by_cases hg : x.generation = handle.generation
      · rw [if_pos hg, if_pos (hgen.2 hg)]
        split
        · exact ⟨ht.toAlike, rfl⟩
        · have hconfig : treeConfig x.state item component (listener.map (·.rename ρ)) =
              (treeConfig x.state item component listener).rename ρ := rfl
          have hlength : (e.rename ρ).trees.length = e.trees.length := List.length_map ..
          have hrefuses : (e.rename ρ).refuses = e.refuses := rfl
          simp only [hconfig, hlength, hrefuses]
          by_cases hr : e.refuses
          · simp only [if_pos hr]
            refine ⟨Alike.modifyEngine (ht.modifyHolder ..) ?_, rfl⟩
            exact fun _ => rfl
          · simp only [if_neg hr]
            refine ⟨?_, rfl⟩
            have hbuilt (k k' : Nat) (f f' : Holder → Holder) (c : Tree.Config) :
                Alike ρ ((u.modifyHolder k f).modifyEngine call.engine (·.build c))
                  ((u'.modifyHolder k' f').modifyEngine call.engine (·.build (c.rename ρ))) :=
              (ht.modifyHolder k k' f f').modifyEngine fun a => rename_build a c
            cases x.state.readyListener with
            | none => exact (hbuilt ..).modifyHolder ..
            | some l =>
                refine Alike.modifyHolder (Alike.modifyTree (hbuilt ..) ?_) ..
                exact fun _ => rfl
      · rw [if_neg hg, if_neg fun h => hg (hgen.1 h)]
        exact ⟨ht.toAlike, rfl⟩

theorem Twin.alike_act {a : Act} (ht : Twin ρ P u u') (ha : a.Fits ρ P u u') :
    Alike ρ (u.act a) (u'.act (a.rename ρ)) := by
  have h := ht.toAlike
  cases a with
  | acquire => cases ha
  | evict k =>
      rw [act, Act.rename, act, evict, evict, ht.live? (ha k rfl)]
      split
      · exact h.modifyHolder ..
      · next t _ =>
          rw [ht.engine, ht.tree?]
          cases u.engines[t.engine]? with
          | none => exact h.modifyHolder ..
          | some e =>
              cases u.tree? t with
              | none => exact h.modifyHolder ..
              | some tree =>
                  refine Alike.modifyHolder (h.modifyTree ?_) ..
                  exact fun _ => rfl
  | reset k =>
      rw [act, Act.rename, act, reset, reset, ht.live? (ha k rfl)]
      split
      · refine Alike.modifyHolder (h.modifyTree ?_) ..
        exact fun _ => rfl
      · exact h.modifyHolder ..
  | giveBack k referred =>
      obtain ⟨p, f, hf, heq⟩ := u.giveBack_eq k referred
      obtain ⟨p', f', hf', heq'⟩ := u'.giveBack_eq (ρ.holder k) referred
      rw [act, Act.rename, act, heq, heq']
      exact h.modifyPool p p' hf hf'
  | setReadyListener k l =>
      rw [act, Act.rename, act, setReadyListener, setReadyListener, ht.live? (ha k rfl)]
      split
      · refine Alike.modifyHolder (h.modifyTree ?_) ..
        exact fun _ => rfl
      · exact h.modifyHolder ..
  | reportWindow k position w =>
      rw [act, Act.rename, act, reportWindow, reportWindow, ht.live? ha]
      split
      · refine h.modifyTree ?_
        exact fun _ => rfl
      · exact h
  | openRequest call => exact (ht.openRequest (ha _ rfl)).1
  | claimTree call item component handle listener =>
      exact (ht.claimTree item component listener ha).1
  | commitLayout r size =>
      rw [act, Act.rename, act, commitLayout, commitLayout, ht.isCurrent (ha _ rfl)]
      split
      · exact h.modifyHolder ..
      · exact h
  | confirmLayout r =>
      rw [act, Act.rename, act, confirmLayout, confirmLayout, ht.isCurrent (ha _ rfl)]
      split
      · exact h.modifyHolder ..
      · exact h
  | writeHeight w height =>
      obtain ⟨x, g, hx, hg, hw⟩ := ht.handle ha.1 ha.2
      have hgen : u'.isOfGeneration (ρ.handle w) := by
        rw [hw, u'.isOfGeneration_eq hx, hg, decide_eq_true_eq]
      rw [act, Act.rename, act, writeHeight, writeHeight, if_pos ha.2, if_pos hgen]
      exact h.modifyHolder ..
  | enterLayout t => exact (h.enterLayout t).1
  | settleLayout l size =>
      refine Alike.modifyEngine (h.modifyTree ?_) ?_
      · exact fun _ => rfl
      · exact fun _ => rfl
  | enqueue q l => exact h.modifyQueue q _
  | dequeue q => exact (h.dequeue q).1
  | changeEngine e c =>
      refine h.modifyEngine fun _ => ?_
      cases c <;> rfl
  | build e config => exact h.modifyEngine fun a => rename_build a config
  | changeTree t c =>
      refine h.modifyTree fun _ => ?_
      cases c <;> rfl
  | openGate g => exact h.modifyGate g Gate.openUp
  | addQueue queue => exact { h with queues := congrArg (· ++ [queue]) h.queues }
  | addEngine name measure manner =>
      refine { h with engines := ?_ }
      change u'.engines ++ [_] = (u.engines ++ [_]).map _
      rw [h.engines, List.map_append]
      rfl
  | addGate => exact { h with gates := congrArg (· ++ [({} : Gate)]) h.gates }
  | addPool pool =>
      refine { h with capacities := ?_ }
      change (u'.pools ++ [_]).map _ = (u.pools ++ [_]).map _
      rw [List.map_append, List.map_append]
      exact congrArg (· ++ [some pool.capacity]) h.capacities
  | clearPool p => exact h.modifyPool p p (fun _ => rfl) fun _ => rfl
  | dropPool p =>
      refine { h with capacities := ?_ }
      change (u'.pools.set p none).map _ = (u.pools.set p none).map _
      rw [List.map_set, List.map_set]
      exact congrArg (·.set p none) h.capacities
  | _ => exact h.modifyHolder ..

theorem Twin.act {a : Act} (inj : ∀ a b, P a → P b → ρ.holder a = ρ.holder b → a = b)
    (ht : Twin ρ P u u') (ha : a.Fits ρ P u u') : Twin ρ P (u.act a) (u'.act (a.rename ρ)) :=
  ⟨ht.alike_act ha, fun _ hh => Paired.act inj ht ha hh⟩

end Store

end Recycler

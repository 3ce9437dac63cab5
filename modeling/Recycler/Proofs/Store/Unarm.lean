import Recycler.Proofs.Store.Armed

/-!
# Stores that differ in what an engine is armed with

What an engine is armed with is looked at when a layout begins on one of its trees, and at no other
time. So whatever else is done to a store can as well be done to the store in which the engine is
not armed (`unarm`), and the engine be disarmed afterwards.
-/

namespace Recycler

namespace Engine

/-- An engine that is not armed. -/
def disarm (x : Engine) : Engine := { x with armed := none }

/-- The engine with number `k`, which is not armed if it is the one given. -/
def disarmIn (E : Option Nat) (k : Nat) (x : Engine) : Engine := if E = some k then x.disarm else x

section Fields

variable (E : Option Nat) (k : Nat) (x : Engine)

@[simp] theorem name_disarmIn : (x.disarmIn E k).name = x.name := by
  unfold disarmIn
  split <;> rfl

@[simp] theorem measure_disarmIn : (x.disarmIn E k).measure = x.measure := by
  unfold disarmIn
  split <;> rfl

@[simp] theorem manner_disarmIn : (x.disarmIn E k).manner = x.manner := by
  unfold disarmIn
  split <;> rfl

@[simp] theorem gate_disarmIn : (x.disarmIn E k).gate = x.gate := by
  unfold disarmIn
  split <;> rfl

@[simp] theorem refuses_disarmIn : (x.disarmIn E k).refuses = x.refuses := by
  unfold disarmIn
  split <;> rfl

@[simp] theorem layouts_disarmIn : (x.disarmIn E k).layouts = x.layouts := by
  unfold disarmIn
  split <;> rfl

@[simp] theorem trees_disarmIn : (x.disarmIn E k).trees = x.trees := by
  unfold disarmIn
  split <;> rfl

end Fields

end Engine

namespace Store

/-- The store in which an engine, if one is given, is not armed. -/
def unarm (E : Option Nat) (s : Store) : Store :=
  match E with
  | some e => s.modifyEngine e Engine.disarm
  | none => s

variable {E : Option Nat} {s : Store}

section Parts

variable (E s)

@[simp] theorem unarm_none : s.unarm none = s := rfl

@[simp] theorem holders_unarm : (s.unarm E).holders = s.holders := by cases E <;> rfl

@[simp] theorem gates_unarm : (s.unarm E).gates = s.gates := by cases E <;> rfl

@[simp] theorem pools_unarm : (s.unarm E).pools = s.pools := by cases E <;> rfl

@[simp] theorem queues_unarm : (s.unarm E).queues = s.queues := by cases E <;> rfl

@[simp] theorem getElem?_engines_unarm (k : Nat) :
    (s.unarm E).engines[k]? = s.engines[k]?.map (Engine.disarmIn E k) := by
  cases E with
  | none =>
      have hid : Engine.disarmIn none k = id := rfl
      rw [hid, Option.map_id]
      rfl
  | some e =>
      rw [unarm, modifyEngine, List.getElem?_modify]
      congr 1
      funext x
      simp [Engine.disarmIn]

@[simp] theorem length_engines_unarm : (s.unarm E).engines.length = s.engines.length := by
  cases E with
  | none => rfl
  | some e => exact List.length_modify ..

@[simp] theorem tree?_unarm (t : TreeRef) : (s.unarm E).tree? t = s.tree? t := by
  cases E with
  | none => rfl
  | some e => exact s.tree?_modifyEngine t e fun _ => rfl

@[simp] theorem pool?_unarm (p : Nat) : (s.unarm E).pool? p = s.pool? p := by
  rw [pool?, pool?, pools_unarm]

@[simp] theorem live?_unarm (h : Nat) : (s.unarm E).live? h = s.live? h := by
  rw [live?, live?, holders_unarm]

end Parts

/-! ## Changing parts -/

@[simp] theorem modifyHolder_unarm (h : Nat) (f : Holder → Holder) :
    (s.unarm E).modifyHolder h f = (s.modifyHolder h f).unarm E := by cases E <;> rfl

@[simp] theorem modifyState_unarm (h : Nat) (f : Holder.State → Holder.State) :
    (s.unarm E).modifyState h f = (s.modifyState h f).unarm E := by cases E <;> rfl

@[simp] theorem modifyGate_unarm (g : Nat) (f : Gate → Gate) :
    (s.unarm E).modifyGate g f = (s.modifyGate g f).unarm E := by cases E <;> rfl

@[simp] theorem modifyPool_unarm (p : Nat) (f : Pool → Pool) :
    (s.unarm E).modifyPool p f = (s.modifyPool p f).unarm E := by cases E <;> rfl

@[simp] theorem modifyQueue_unarm (q : Nat) (f : Queue → Queue) :
    (s.unarm E).modifyQueue q f = (s.modifyQueue q f).unarm E := by cases E <;> rfl

theorem modifyEngine_unarm (k : Nat) {f : Engine → Engine}
    (hf : ∀ x : Engine, E = some k → f x.disarm = (f x).disarm) :
    (s.unarm E).modifyEngine k f = (s.modifyEngine k f).unarm E := by
  cases E with
  | none => rfl
  | some e =>
      simp only [unarm, modifyEngine, mk.injEq, true_and, and_true]
      refine List.ext_getElem? fun j => ?_
      simp only [List.getElem?_modify]
      cases s.engines[j]? with
      | none => rfl
      | some x =>
          by_cases hk : k = j <;> by_cases he : e = j
          · subst hk he
            simp [hf x rfl]
          all_goals simp [hk, he]

@[simp] theorem modifyTree_unarm (t : TreeRef) (f : Tree → Tree) :
    (s.unarm E).modifyTree t f = (s.modifyTree t f).unarm E :=
  modifyEngine_unarm _ fun _ _ => rfl

/-! ## Acts -/

@[simp] theorem openRequest_unarm (call : Call) :
    (s.unarm E).openRequest call = ((s.openRequest call).1.unarm E, (s.openRequest call).2) := by
  unfold openRequest
  rw [holders_unarm]
  cases s.holders[call.holder]? with
  | none => rfl
  | some x =>
      cases hitem : x.state.item with
      | none => simp [hitem]
      | some item =>
          cases hcomponent : item.value.component? with
          | none => simp [hitem, hcomponent]
          | some component =>
              cases ht : x.state.slot.tree? <;> simp [hitem, hcomponent, ht]

@[simp] theorem claimTree_unarm (call : Call) (item : Shared Descriptor) (component : Component)
    (handle : WeakHandle) (listener : Option MeasureListener) :
    (s.unarm E).claimTree call item component handle listener =
      ((s.claimTree call item component handle listener).1.unarm E,
        (s.claimTree call item component handle listener).2) := by
  unfold claimTree
  rw [holders_unarm, getElem?_engines_unarm]
  cases s.holders[call.holder]? with
  | none => rfl
  | some x =>
      cases s.engines[call.engine]? with
      | none => rfl
      | some engine =>
          simp only [Option.map_some, Engine.refuses_disarmIn, Engine.trees_disarmIn]
          split
          · cases x.state.slot.tree? with
            | some t => rfl
            | none =>
                dsimp only
                have hbuild (f : Engine → Engine) (hf : ∀ x : Engine, f x.disarm = (f x).disarm) :
                    ((s.unarm E).modifyState call.holder (·.takeParked)).modifyEngine
                        call.engine f =
                      ((s.modifyState call.holder (·.takeParked)).modifyEngine call.engine f).unarm
                        E := by
                  rw [modifyState_unarm, modifyEngine_unarm _ fun x _ => hf x]
                split
                · rw [hbuild]
                  exact fun _ => rfl
                · rw [hbuild]
                  · cases x.state.readyListener <;> simp
                  · exact fun _ => rfl
          · rfl

/-- A layout begins the same way on a tree whose engine is armed as before, and on a released
one. -/
theorem enterLayout_unarm {t : TreeRef}
    (h : ∀ e, E = some e → (Act.enterLayout t).begins s e = false) :
    (s.unarm E).enterLayout t = ((s.enterLayout t).1.unarm E, (s.enterLayout t).2) := by
  unfold enterLayout
  rw [tree?_unarm, getElem?_engines_unarm]
  cases hx : s.engines[t.engine]? with
  | none => rfl
  | some x =>
      cases htree : s.tree? t with
      | none => rfl
      | some tree =>
          by_cases hE : E = some t.engine
          · have hreleased : tree.released = true := by
              simpa [Act.begins, htree] using h _ hE
            simp [hreleased]
          · simp only [Option.map_some, Engine.disarmIn, hE, if_false]
            split
            · rfl
            · cases x.armed with
              | some reason =>
                  dsimp only
                  rw [modifyEngine_unarm _ fun _ he => absurd he hE]
              | none => cases x.gate <;> simp

@[simp] theorem settleLayout_unarm (l : Layout) (size : Size) :
    (s.unarm E).settleLayout l size = (s.settleLayout l size).unarm E := by
  rw [settleLayout, settleLayout, modifyTree_unarm, modifyEngine_unarm]
  exact fun _ _ => rfl

@[simp] theorem isOfGeneration_unarm (w : WeakHandle) :
    (s.unarm E).isOfGeneration w = s.isOfGeneration w := by
  rw [isOfGeneration, isOfGeneration, holders_unarm]

@[simp] theorem writeHeight_unarm (w : WeakHandle) (height : Int32) :
    (s.unarm E).writeHeight w height = (s.writeHeight w height).unarm E := by
  unfold writeHeight
  rw [isOfGeneration_unarm]
  split <;> simp

@[simp] theorem isCurrent_unarm (r : Request) : (s.unarm E).isCurrent r = s.isCurrent r := by
  rw [isCurrent, isCurrent, holders_unarm]

@[simp] theorem commitLayout_unarm (r : Request) (size : Size) :
    (s.unarm E).commitLayout r size = (s.commitLayout r size).unarm E := by
  unfold commitLayout
  rw [isCurrent_unarm]
  split <;> simp

@[simp] theorem confirmLayout_unarm (r : Request) :
    (s.unarm E).confirmLayout r = (s.confirmLayout r).unarm E := by
  unfold confirmLayout
  rw [isCurrent_unarm]
  split <;> simp

@[simp] theorem enqueue_unarm (q : Nat) (l : Layout) :
    (s.unarm E).enqueue q l = (s.enqueue q l).unarm E := modifyQueue_unarm _ _

@[simp] theorem dequeue_unarm (q : Nat) :
    (s.unarm E).dequeue q = ((s.dequeue q).1.unarm E, (s.dequeue q).2) := by
  unfold dequeue
  rw [queues_unarm]
  split <;> simp

@[simp] theorem giveBack_unarm (h : Nat) (referred : Bool) :
    (s.unarm E).giveBack h referred =
      ((s.giveBack h referred).1.unarm E, (s.giveBack h referred).2) := by
  unfold giveBack
  rw [holders_unarm]
  cases s.holders[h]? with
  | none => rfl
  | some x =>
      simp only [pool?_unarm]
      cases s.pool? x.home with
      | none => rfl
      | some pool => cases referred <;> simp

@[simp] theorem evict_unarm (h : Nat) : (s.unarm E).evict h = (s.evict h).unarm E := by
  unfold evict
  rw [holders_unarm]
  cases s.holders[h]?.bind fun x => x.state.slot.tree? with
  | none => simp
  | some t =>
      dsimp only
      rw [tree?_unarm, getElem?_engines_unarm]
      cases s.engines[t.engine]? with
      | none => simp
      | some x => cases s.tree? t <;> simp

@[simp] theorem reset_unarm (h : Nat) : (s.unarm E).reset h = (s.reset h).unarm E := by
  unfold reset
  rw [holders_unarm]
  cases s.holders[h]?.bind fun x => x.state.slot.tree? <;> simp

@[simp] theorem setReadyListener_unarm (h : Nat) (l : Option ReadyListener) :
    (s.unarm E).setReadyListener h l = (s.setReadyListener h l).unarm E := by
  unfold setReadyListener
  rw [holders_unarm]
  cases s.holders[h]?.bind fun x => x.state.slot.tree? <;> simp

@[simp] theorem reportWindow_unarm (h : Nat) (position : UInt64) (w : Window) :
    (s.unarm E).reportWindow h position w = (s.reportWindow h position w).unarm E := by
  unfold reportWindow
  rw [holders_unarm]
  cases s.holders[h]?.bind fun x => x.state.slot.tree? <;> simp

@[simp] theorem dropPool_unarm (p : Nat) :
    (s.unarm E).dropPool p = (s.dropPool p).unarm E := by cases E <;> rfl

@[simp] theorem configure_unarm (h : Nat) (item : Shared Descriptor) (policy : Policy)
    (factory : Option Factory) :
    (s.unarm E).configure h item policy factory = (s.configure h item policy factory).unarm E :=
  modifyState_unarm _ _

@[simp] theorem takeHolder_unarm (p : Nat) :
    (s.unarm E).takeHolder p = ((s.takeHolder p).1.unarm E, (s.takeHolder p).2) := by
  unfold takeHolder
  rw [pool?_unarm]
  cases (s.pool? p).bind fun pool => pool.take.2 with
  | some h => simp
  | none => cases E <;> rfl

theorem addEngine_unarm (x : Engine) (hx : x.armed = none) :
    { s.unarm E with engines := (s.unarm E).engines ++ [x] } =
      ({ s with engines := s.engines ++ [x] } : Store).unarm E := by
  cases E with
  | none => rfl
  | some e =>
      have hdisarm : x.disarm = x := by rw [Engine.disarm, ← hx]
      simp only [unarm, modifyEngine, mk.injEq, true_and, and_true]
      refine List.ext_getElem? fun j => ?_
      rw [List.getElem?_modify, List.getElem?_append, List.getElem?_append, List.length_modify,
        List.getElem?_modify]
      split
      · rfl
      · cases hj : j - s.engines.length <;> simp [hdisarm]

@[simp] theorem measure_unarm (l : Layout) : (s.unarm E).measure l = s.measure l := by
  unfold measure
  rw [getElem?_engines_unarm]
  cases s.engines[l.tree.engine]? <;> simp

end Store

end Recycler

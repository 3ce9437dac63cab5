import Recycler.Proofs.Store.Latest
import Recycler.Proofs.Store.Supply

/-!
# The listeners of released trees

A release takes the listener for new layouts from the tree. So a tree that was released has one only
if it was set afterwards, on the tree itself or through a holder that has it still.
-/

namespace Recycler.Store

/-- The listener for new layouts that an act sets on a tree, if it sets one or takes it away. -/
def Act.tells? (s : Store) (t : TreeRef) : Act → Option (Option ReadyListener)
  | .setReadyListener h l => if s.live? h = some t then some l else none
  | .changeTree u (.setReadyListener l) => if u = t then some l else none
  | _ => none

variable {s : Store} {a : Act} {as : List Act} {t : TreeRef} {x y : Tree} {l : ReadyListener}

/-- A tree that is released after an act and has a listener got it by this act, or had it before and
was released before. -/
theorem of_onTree_released (hr : (a.onTree s t x).released = true)
    (hl : (a.onTree s t x).readyListener = some l) :
    x.released = true ∧ (a.tells? s t = some (some l) ∨ x.readyListener = some l) := by
  have hkept (hsame : (a.onTree s t x).released = x.released)
      (hkeeps : (a.onTree s t x).readyListener = x.readyListener) :
      x.released = true ∧ (a.tells? s t = some (some l) ∨ x.readyListener = some l) :=
    ⟨hsame.symm.trans hr, .inr (hkeeps.symm.trans hl)⟩
  cases a with
  | evict | reset =>
      rw [Act.onTree] at hr hl
      split at hl
      · cases hl
      · next hlive =>
          rw [if_neg hlive] at hr
          exact ⟨hr, .inr hl⟩
  | setReadyListener h l' =>
      rw [Act.onTree] at hr hl
      rw [Act.tells?]
      split at hl
      · next hlive =>
          rw [if_pos hlive] at hr ⊢
          exact ⟨hr, .inl (congrArg some hl)⟩
      · next hlive =>
          rw [if_neg hlive] at hr
          exact ⟨hr, .inr hl⟩
  | changeTree u c =>
      rw [Act.onTree] at hr hl
      split at hl
      · next hu =>
          rw [if_pos hu] at hr
          cases c with
          | release => cases hl
          | setReadyListener l' =>
              exact ⟨hr, .inl (by rw [Act.tells?, if_pos hu]; exact congrArg some hl)⟩
          | _ => exact ⟨hr, .inr hl⟩
      · next hu =>
          rw [if_neg hu] at hr
          exact ⟨hr, .inr hl⟩
  | reportWindow h position w =>
      refine hkept ?_ ?_ <;> rw [Act.onTree] <;> split <;> rfl
  | settleLayout l size =>
      refine hkept ?_ ?_ <;> rw [Act.onTree] <;> split <;> rfl
  | _ => exact hkept rfl rfl

/-- The listener of a tree that was released was set afterwards. -/
theorem exists_tells?_of_released (hn : s.tree? t = none) (hx : (s.acts as).tree? t = some x)
    (hr : x.released = true) (hl : x.readyListener = some l) :
    ∃ bs a cs y, as = bs ++ a :: cs ∧ a.tells? (s.acts bs) t = some (some l) ∧
      (s.acts bs).tree? t = some y ∧ y.released = true := by
  induction as using List.reverseRecOn generalizing x with
  | nil =>
      rw [acts_nil, hn] at hx
      cases hx
  | append_singleton as a ih =>
      have hact : ((s.acts as).act a).tree? t = some x := by
        rw [← hx, acts_append]
        rfl
      cases hbefore : (s.acts as).tree? t with
      | none =>
          obtain ⟨config, listener, rfl⟩ := eq_of_tree?_act hbefore hact
          cases hr
      | some y =>
          obtain rfl := Option.some.inj (((s.acts as).tree?_act a hbefore).symm.trans hact)
          obtain ⟨hreleased, htells | hhad⟩ := of_onTree_released hr hl
          · exact ⟨as, a, [], y, rfl, htells, hbefore, hreleased⟩
          · obtain ⟨bs, b, cs, z, rfl, hb⟩ := ih hbefore hreleased hhad
            exact ⟨bs, b, cs ++ [a], z, by rw [List.append_assoc, List.cons_append], hb⟩

end Recycler.Store

/-!
# Render progress

How far an item has come on its way to the screen. Progress only moves forward, until the holder
of the item is released and starts again.
-/

namespace Recycler

/-- How far an item has come on its way to the screen. -/
inductive Progress
  | uninitialized
  /-- The item was handed to the list. -/
  | added
  /-- The item was drawn at least once. -/
  | drawn
  deriving DecidableEq, Repr, Inhabited

namespace Progress

/-- The position of a stage on the way. -/
def rank : Progress → Nat
  | uninitialized => 0
  | added => 1
  | drawn => 2

/-- Stages are compared by their rank. -/
instance : Ord Progress := ⟨fun a b => compare a.rank b.rank⟩

/-- Moves on to `next` unless `current` is already further along. -/
def advance (current next : Progress) : Progress :=
  if current.rank < next.rank then next else current

@[simp] theorem rank_advance (current next : Progress) :
    (advance current next).rank = max current.rank next.rank := by
  unfold advance
  split <;> omega

/-- The name of a stage in printed values. -/
def text : Progress → String
  | uninitialized => "Uninitialized"
  | added => "Added"
  | drawn => "Drawn"

end Progress

end Recycler

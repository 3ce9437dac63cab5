import Recycler.Text.Shape

/-!
# Differences of one prop

The value of one prop of a section at the previous and at the next render. A prop that was never
given is absent on both sides.
-/

namespace Recycler

/-- The previous and the next value of a prop. -/
structure Diff (α : Type) where
  previous : Option α := none
  next : Option α := none
  deriving DecidableEq, Inhabited

namespace Diff

variable {α : Type}

/-- The previous value, or a default if there was none. -/
def previousOr (d : Diff α) (default : α) : α := d.previous.getD default

/-- The next value, or a default if there is none. -/
def nextOr (d : Diff α) (default : α) : α := d.next.getD default

/-- A difference in printed values. -/
def text (show? : α → String) (d : Diff α) : String :=
  Text.record "Diff" [
    ("previous", Text.option (d.previous.map show?)),
    ("next", Text.option (d.next.map show?))]

end Diff

end Recycler

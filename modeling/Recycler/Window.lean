import Recycler.Text.Shape

/-!
# Visible windows

The window a list reports while it scrolls: the positions it shows at least in part, and the
positions it shows in full. Both are closed ranges; a range whose first position lies behind its
last one is empty.
-/

namespace Recycler

/-- The positions visible in part and in full. -/
structure Window where
  firstVisible : UInt64 := 0
  lastVisible : UInt64 := 0
  firstFullyVisible : UInt64 := 0
  lastFullyVisible : UInt64 := 0
  deriving DecidableEq, Inhabited

namespace Window

/-- Whether `position` is visible at least in part. -/
def shows (w : Window) (position : UInt64) : Bool :=
  w.firstVisible ≤ position && position ≤ w.lastVisible

/-- Whether `position` is visible in full. -/
def showsFully (w : Window) (position : UInt64) : Bool :=
  w.firstFullyVisible ≤ position && position ≤ w.lastFullyVisible

/-- A window in printed values. -/
def text (w : Window) : String :=
  Text.record "VisibilityRange" [
    ("first_visible", Text.nat w.firstVisible.toNat),
    ("last_visible", Text.nat w.lastVisible.toNat),
    ("first_fully_visible", Text.nat w.firstFullyVisible.toNat),
    ("last_fully_visible", Text.nat w.lastFullyVisible.toNat)]

end Window

end Recycler

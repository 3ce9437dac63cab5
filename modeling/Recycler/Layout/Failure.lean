import Recycler.Text.Quoted
import Recycler.Text.Shape

/-!
# Layout failures

Why a layout did not come about: the tree could not measure its root, or the tree had been
released before the layout began.
-/

namespace Recycler

/-- Why a layout did not come about. -/
inductive Failure
  | measure (reason : String)
  | released
  deriving DecidableEq

namespace Failure

/-- The message of a failure. -/
def message : Failure → String
  | measure reason => "layout failed: " ++ reason
  | released => "layout requested on a released tree"

/-- A failure in printed values. -/
def text : Failure → String
  | measure reason => Text.wrapped "Measure" (Text.quote reason)
  | released => "Released"

end Failure

end Recycler

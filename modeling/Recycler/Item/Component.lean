import Recycler.Text.Quoted
import Recycler.Text.Shape

/-!
# Components

What an item renders, as far as holders and sections need to know: a name, an instance number
that tells two components apart, and the rule by which a component recognises another one that
would render the same.
-/

namespace Recycler

/-- When a component counts another one as rendering the same. -/
inductive Equivalence
  /-- When both have the same name. -/
  | byName
  /-- When both are the same instance. -/
  | byInstance
  deriving DecidableEq, Repr

/-- A component. `number` tells instances apart. -/
structure Component where
  number : Nat
  equivalence : Equivalence
  name : String
  deriving DecidableEq

namespace Component

/-- Whether `c` counts `next` as rendering the same. The rule is the one of `c`, so the question
may have another answer the other way round. -/
def isEquivalentTo (c next : Component) : Bool :=
  match c.equivalence with
  | .byName => c.name = next.name
  | .byInstance => c.number = next.number

/-- Every component counts itself as rendering the same. -/
theorem isEquivalentTo_self (c : Component) : c.isEquivalentTo c = true := by
  unfold isEquivalentTo
  split <;> simp

/-- A component in printed values. -/
def text (c : Component) : String :=
  match c.equivalence with
  | .byName => Text.record "TestComponent" [("name", Text.quote c.name)]
  | .byInstance => Text.record "Label" [("name", Text.quote c.name)]

end Component

end Recycler

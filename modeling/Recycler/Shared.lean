/-!
# Shared values

Values that several owners refer to are never changed, so an owner may simply keep the value.
What is left of sharing is identity: two owners may hold equal values that are not the same
instance. `Shared.same` asks for the instance and never looks at the value.
-/

namespace Recycler

/-- A value that owners refer to. `number` tells instances apart. -/
structure Shared (α : Type) where
  number : Nat
  value : α
  deriving DecidableEq

namespace Shared

variable {α : Type}

/-- Whether two references are to the same instance. -/
def same (a b : Shared α) : Bool := a.number = b.number

@[simp] theorem same_self (a : Shared α) : a.same a = true := by simp [same]

theorem same_iff (a b : Shared α) : a.same b = true ↔ a.number = b.number := by simp [same]

end Shared

end Recycler

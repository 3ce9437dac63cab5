import Recycler.Text.Shape

/-!
# Size constraints

A parent constrains each axis of a child by a mode and a size, packed into one 32-bit word: the
two high bits hold the mode and the 30 low bits the size. Hosts hand packed words around, so any
word is a constraint, and a word whose two high bits are both set counts as unconstrained.

The word is read as a number below 2 ^ 32, which turns the mode into a quotient and the size into
a remainder by `Constraint.span`.
-/

namespace Recycler

/-- How a parent constrains one axis. -/
inductive Mode
  /-- Any size will do. -/
  | unspecified
  /-- The given size and no other. -/
  | exactly
  /-- The given size or less. -/
  | atMost
  deriving DecidableEq, Repr

namespace Mode

/-- The two high bits that stand for a mode. -/
def code : Mode → Nat
  | unspecified => 0
  | exactly => 1
  | atMost => 2

/-- The mode that two high bits stand for. -/
def ofCode : Nat → Mode
  | 1 => exactly
  | 2 => atMost
  | _ => unspecified

@[simp] theorem ofCode_code (m : Mode) : ofCode m.code = m := by cases m <;> rfl

/-- The name of a mode in printed values. -/
def text : Mode → String
  | unspecified => "Unspecified"
  | exactly => "Exactly"
  | atMost => "AtMost"

end Mode

/-- A size constraint for one axis, in its packed form. -/
structure Constraint where
  raw : Int32
  deriving DecidableEq, Inhabited

namespace Constraint

/-- The number of sizes that fit beside a mode: 2 ^ 30. -/
def span : Nat := 1073741824

/-- The largest size that fits beside a mode. -/
def maxSize : Int32 := 1073741823

/-- The packed word as a number below 2 ^ 32. -/
def word (c : Constraint) : Nat := c.raw.toUInt32.toNat

/-- A size brought into the range that fits beside a mode. -/
def clamp (size : Int32) : Nat := min size.toInt.toNat (span - 1)

/-- Packs a mode and a clamped size. -/
def pack (mode : Mode) (size : Int32) : Constraint :=
  ⟨Int32.ofNat (mode.code * span + clamp size)⟩

/-- The constraint to take exactly `size`. -/
def exactly (size : Int32) : Constraint := pack .exactly size

/-- The constraint to take `size` or less. -/
def atMost (size : Int32) : Constraint := pack .atMost size

/-- The constraint that allows every size. -/
def unspecified : Constraint := pack .unspecified 0

/-- The word hosts use before any layout was requested. -/
def uninitialized : Constraint := ⟨-1⟩

/-- Whether this is the word used before any layout was requested. -/
def isUninitialized (c : Constraint) : Bool := c == uninitialized

/-- The mode of a packed word. -/
def mode (c : Constraint) : Mode := .ofCode (c.word / span)

/-- The size of a packed word. -/
def size (c : Constraint) : Int32 := Int32.ofNat (c.word % span)

/-- The size a child takes along the axis if it would like to take `desired`. -/
def resolve (c : Constraint) (desired : Int32) : Int32 :=
  match c.mode with
  | .exactly => c.size
  | .atMost => if desired ≤ c.size then desired else c.size
  | .unspecified => desired

/-- A constraint in printed values. -/
def text (c : Constraint) : String :=
  if c.isUninitialized then Text.wrapped "SizeSpec" "UNINITIALIZED"
  else Text.wrapped "SizeSpec" (c.mode.text ++ " " ++ Text.int c.size.toInt)

end Constraint

/-- The constraints of one layout request, one for each axis. -/
structure Bounds where
  width : Constraint
  height : Constraint
  deriving DecidableEq, Inhabited

/-- A measured size in whole pixels. -/
structure Size where
  width : Int32
  height : Int32
  deriving DecidableEq, Inhabited

/-- A size in printed values. -/
def Size.text (s : Size) : String :=
  Text.record "Size" [("width", Text.int s.width.toInt), ("height", Text.int s.height.toInt)]

end Recycler

/-!
# Typed values

The values a tree keeps as its state and a section hands down as props. Every value has a kind,
and a value is only ever read back at its own kind: a number stored as an `int32` is absent to a
reader who asks for a `nat32`.

Nothing that holds values looks into them. `Kinded` says all that is asked of a type of values, of
which `Value` is the one that sessions bring along.
-/

namespace Recycler

/-- The kinds of values. `theme` is a text of its own kind, kept apart from `text`. -/
inductive Kind
  | bool
  | nat8
  | int32
  | nat32
  | int64
  | nat64
  | text
  | theme
  | unit
  deriving DecidableEq, Repr

/-- A value of one of the kinds. -/
inductive Value
  | bool (b : Bool)
  | nat8 (n : UInt8)
  | int32 (n : Int32)
  | nat32 (n : UInt32)
  | int64 (n : Int64)
  | nat64 (n : UInt64)
  | text (s : String)
  | theme (s : String)
  | unit
  deriving DecidableEq

/-- The kind of a value. -/
def Value.kind : Value → Kind
  | bool _ => .bool
  | nat8 _ => .nat8
  | int32 _ => .int32
  | nat32 _ => .nat32
  | int64 _ => .int64
  | nat64 _ => .nat64
  | text _ => .text
  | theme _ => .theme
  | unit => .unit

/-- A type of values that each have a kind. -/
class Kinded (υ : Type) (κ : outParam Type) where
  /-- The kind of a value. -/
  kind : υ → κ

instance : Kinded Value Kind := ⟨Value.kind⟩

end Recycler

import Recycler.Item.Value
import Recycler.Keyed
import Recycler.Text.Shape

/-!
# Props

The values a section hands down to every layout of an item. Each kind of value is held at most
once, so a second value of a kind replaces the first.
-/

namespace Recycler

/-- A bag of values with at most one value of each kind. -/
structure Props where
  values : Keyed Kind Value
  deriving DecidableEq, Inhabited

namespace Props

/-- The bag without values. -/
def empty : Props := ⟨.empty⟩

/-- Adds a value, replacing the value of its kind. -/
def put (p : Props) (v : Value) : Props := ⟨p.values.put v.kind v⟩

/-- The value of a kind. -/
def get? (p : Props) (k : Kind) : Option Value := p.values.get? k

/-- The number of values. -/
def size (p : Props) : Nat := p.values.size

/-- Whether there are no values. -/
def isEmpty (p : Props) : Bool := p.values.isEmpty

/-- The bag built by putting the values of a list one after the other. -/
def ofList (vs : List Value) : Props := vs.foldl put empty

/-- After a put the kind of the value holds it and every other kind what it held before. -/
theorem get?_put (p : Props) (v : Value) (k : Kind) :
    (p.put v).get? k = if v.kind = k then some v else p.get? k :=
  p.values.get?_put v.kind k v

/-- Props in printed values: their number and nothing of their content. -/
def text (p : Props) : String :=
  Text.record "TreeProps" [("len", Text.nat p.size)]

end Props

end Recycler

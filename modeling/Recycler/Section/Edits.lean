import Recycler.Item.Descriptor

/-!
# Edits of a list of items

What a section asks its list to do: insert, update or delete the item at an index, in order. The
net effect of a set of edits on the number of items is its `delta`.

`Edits.applyTo?` carries the edits out on a list. It fails on the first edit whose index does not
fit: an insertion behind the end, an update or a deletion at or behind the end.
-/

namespace Recycler

/-- One edit of a list of items. -/
inductive Edit
  | insert (index : UInt64) (item : Shared Descriptor)
  | update (index : UInt64) (item : Shared Descriptor)
  | delete (index : UInt64)
  deriving DecidableEq

namespace Edit

/-- The index an edit is about. -/
def index : Edit → UInt64
  | insert i _ => i
  | update i _ => i
  | delete i => i

/-- The descriptor the item gets, if it is not deleted. -/
def item? : Edit → Option (Shared Descriptor)
  | insert _ item => some item
  | update _ item => some item
  | delete _ => none

/-- The change of the number of items. -/
def delta : Edit → Int
  | insert _ _ => 1
  | update _ _ => 0
  | delete _ => -1

/-- Carries an edit out on a list, if its index fits. -/
def applyTo? (e : Edit) (items : List (Shared Descriptor)) : Option (List (Shared Descriptor)) :=
  match e with
  | insert i item =>
    if i.toNat ≤ items.length then some (items.insertIdx i.toNat item) else none
  | update i item =>
    if i.toNat < items.length then some (items.set i.toNat item) else none
  | delete i =>
    if i.toNat < items.length then some (items.eraseIdx i.toNat) else none

/-- An edit in printed values. -/
def text : Edit → String
  | insert i item =>
    Text.record "Insert" [("index", Text.nat i.toNat), ("render_info", item.value.text)]
  | update i item =>
    Text.record "Update" [("index", Text.nat i.toNat), ("render_info", item.value.text)]
  | delete i => Text.record "Delete" [("index", Text.nat i.toNat)]

end Edit

/-- Edits in the order in which they are carried out. -/
structure Edits where
  list : List Edit := []
  deriving DecidableEq, Inhabited

namespace Edits

/-- Adds an edit at the end. -/
def push (es : Edits) (e : Edit) : Edits := ⟨es.list ++ [e]⟩

/-- The number of edits. -/
def size (es : Edits) : Nat := es.list.length

/-- Whether there are no edits. -/
def isEmpty (es : Edits) : Bool := es.list.isEmpty

/-- The net change of the number of items. -/
def delta (es : Edits) : Int := es.list.foldr (fun e n => e.delta + n) 0

/-- Carries the edits out on a list, one after the other. -/
def applyTo? (es : Edits) (items : List (Shared Descriptor)) :
    Option (List (Shared Descriptor)) :=
  es.list.foldlM (fun items e => e.applyTo? items) items

/-- A set of edits in printed values. -/
def text (es : Edits) : String :=
  Text.record "ChangeSet" [("changes", Text.list (es.list.map Edit.text))]

end Edits

end Recycler

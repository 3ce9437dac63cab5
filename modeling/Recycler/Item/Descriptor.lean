import Recycler.Item.Component
import Recycler.Item.Props
import Recycler.Shared

/-!
# Descriptors

A descriptor says what one list item renders: a component, or a view of the platform that needs
no layout, together with how the item sits in the list. Descriptors are never changed once they
are built; a builder starts from the defaults and applies settings in order.

Holders never compare descriptors by content. They refer to a `Shared Descriptor` and ask whether
two references are to the same instance. The props of a descriptor are shared as well, with the
section that handed them down or among the trees laid out with them.
-/

namespace Recycler

/-- The value of a custom attribute. -/
inductive Attribute
  | bool (b : Bool)
  | int (n : Int64)
  | text (s : String)
  deriving DecidableEq

namespace Attribute

/-- The truth value of an attribute, if it has one. -/
def asBool? : Attribute → Option Bool
  | bool b => some b
  | _ => none

/-- The number of an attribute, if it has one. -/
def asInt? : Attribute → Option Int64
  | int n => some n
  | _ => none

/-- The text of an attribute, if it has one. -/
def asText? : Attribute → Option String
  | text s => some s
  | _ => none

/-- An attribute in printed values. -/
def print : Attribute → String
  | bool b => Text.wrapped "Bool" (Text.bool b)
  | int n => Text.wrapped "Int" (Text.int n.toInt)
  | text s => Text.wrapped "Text" (Text.quote s)

end Attribute

/-- What an item renders. -/
inductive Content
  | component (c : Component)
  /-- A view of the platform, with its view type. -/
  | view (viewType : UInt32)
  deriving DecidableEq

/-- Content in printed values. -/
def Content.text : Content → String
  | component c => Text.wrapped "Component" c.text
  | view viewType =>
    Text.wrapped "View" (Text.record "ViewRenderInfo" [("view_type", Text.nat viewType.toNat)])

/-- The description of one list item. -/
structure Descriptor where
  content : Content
  sticky : Bool := false
  spanSize : UInt32 := 1
  fullSpan : Bool := false
  attributes : Keyed String Attribute := .empty
  props : Option (Shared Props) := none
  givenName : Option String := none
  deriving DecidableEq

/-- One step in building a descriptor. -/
inductive Descriptor.Setting
  | sticky (b : Bool)
  | spanSize (n : UInt32)
  | fullSpan (b : Bool)
  | attribute (key : String) (value : Attribute)
  | props (p : Option (Shared Props))
  | name (s : String)
  deriving DecidableEq

namespace Descriptor

/-- Applies one setting. A later setting of the same field, or of the same attribute key, wins. -/
def apply (d : Descriptor) : Setting → Descriptor
  | .sticky b => { d with sticky := b }
  | .spanSize n => { d with spanSize := n }
  | .fullSpan b => { d with fullSpan := b }
  | .attribute key value => { d with attributes := d.attributes.put key value }
  | .props p => { d with props := p }
  | .name s => { d with givenName := some s }

/-- Builds a descriptor from its content and settings applied in order. -/
def build (content : Content) (settings : List Setting) : Descriptor :=
  settings.foldl apply { content }

/-- Whether the item is drawn by a view of the platform, which has no layout. -/
def rendersView (d : Descriptor) : Bool :=
  match d.content with
  | .component _ => false
  | .view _ => true

/-- The component of the item, unless a view renders it. -/
def component? (d : Descriptor) : Option Component :=
  match d.content with
  | .component c => some c
  | .view _ => none

/-- The view type of the item, if a view renders it. -/
def viewType? (d : Descriptor) : Option UInt32 :=
  match d.content with
  | .component _ => none
  | .view viewType => some viewType

/-- The custom attribute under a key. -/
def attribute? (d : Descriptor) (key : String) : Option Attribute := d.attributes.get? key

/-- The name in log lines: the given name, or else the name of the component, or `view`. -/
def name (d : Descriptor) : String :=
  d.givenName.getD <| match d.content with
    | .component c => c.name
    | .view _ => "view"

/-- The attribute that says whether the tree of the item clips its children. -/
def clipKey : String := "clip_children"

/-- Whether the tree of the item clips its children: as the attribute says, and true without a
truth value under its key. -/
def clipsChildren (d : Descriptor) : Bool :=
  ((d.attribute? clipKey).bind Attribute.asBool?).getD true

/-- A descriptor in printed values. -/
def text (d : Descriptor) : String :=
  Text.record "RenderInfo" [
    ("content", d.content.text),
    ("is_sticky", Text.bool d.sticky),
    ("span_size", Text.nat d.spanSize.toNat),
    ("is_full_span", Text.bool d.fullSpan),
    ("custom_attributes",
      Text.map (d.attributes.entries.map fun e => (Text.quote e.1, e.2.print))),
    ("tree_props", Text.option (d.props.map fun p => p.value.text)),
    ("name", Text.option (d.givenName.map Text.quote))]

end Descriptor

end Recycler

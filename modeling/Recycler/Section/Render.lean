import Recycler.Log
import Recycler.Section.Diff
import Recycler.Section.Edits

/-!
# Sections of one component

A section that renders exactly one component as one item. Each render compares the props of the
section with those of the previous render and yields the edits that bring the item up to date:

* without a next component the item is deleted;
* without a previous component it is inserted;
* otherwise it is updated if a layout prop changed or the previous component does not count the
  next one as rendering the same, and left alone if not.

The descriptor of the item carries a copy of the props of the context, so that later changes of
the context do not reach items that are already in the list.
-/

namespace Recycler

/-- What a section sees of its surroundings. -/
structure Section.Context where
  props : Option (Shared Props) := none
  givenTag : Option String := none
  deriving DecidableEq, Inhabited

namespace Section.Context

/-- The tag of log lines. -/
def tag (c : Context) : String := c.givenTag.getD Log.defaultTag

/-- The context's props as a new instance with the given number. -/
def copyProps (c : Context) (number : Nat) : Option (Shared Props) :=
  c.props.map fun p => ⟨number, p.value⟩

/-- A context in printed values. -/
def text (c : Context) : String :=
  Text.record "SectionContext" [
    ("tree_props", Text.option (c.props.map fun p => p.value.text)),
    ("log_tag", Text.option (c.givenTag.map Text.quote))]

end Section.Context

/-- The props of a section of one component, at the previous and the next render. -/
structure Section where
  component : Diff Component
  sticky : Diff Bool := {}
  spanSize : Diff UInt32 := {}
  fullSpan : Diff Bool := {}
  deriving DecidableEq

namespace Section

/-- Whether an item sticks to the top without a word from the section. -/
def defaultSticky : Bool := false

/-- The columns an item spans without a word from the section. -/
def defaultSpanSize : UInt32 := 1

/-- Whether an item spans all columns without a word from the section. -/
def defaultFullSpan : Bool := false

/-- Whether a layout prop has another effective value than at the previous render. -/
def layoutChanged (s : Section) : Bool :=
  s.sticky.previousOr defaultSticky != s.sticky.nextOr defaultSticky
    || s.spanSize.previousOr defaultSpanSize != s.spanSize.nextOr defaultSpanSize
    || s.fullSpan.previousOr defaultFullSpan != s.fullSpan.nextOr defaultFullSpan

/-- The descriptor of the item that renders `next`. -/
def describe (s : Section) (next : Component) (props : Option (Shared Props)) : Descriptor where
  content := .component next
  sticky := s.sticky.nextOr defaultSticky
  spanSize := s.spanSize.nextOr defaultSpanSize
  fullSpan := s.fullSpan.nextOr defaultFullSpan
  props := props

/-- The outcome of one render: the edits, and the log line that goes with them if there are any. -/
structure Outcome where
  edits : Edits
  log : List Log
  deriving DecidableEq

/-- Renders the section. `itemNumber` is the number of the descriptor if one is issued, and
`propsNumber` the number of the copy of the context's props that it carries. -/
def render (s : Section) (context : Context) (itemNumber propsNumber : Nat) : Outcome :=
  match s.component.next with
  | none =>
    { edits := ⟨[.delete 0]⟩
      log := [⟨.trace, Log.tagged context.tag "single component removed"⟩] }
  | some next =>
    let props := context.copyProps propsNumber
    let item : Shared Descriptor := ⟨itemNumber, s.describe next props⟩
    match s.component.previous with
    | none =>
      { edits := ⟨[.insert 0 item]⟩
        log := [⟨.trace, Log.tagged context.tag ("inserting " ++ next.name)⟩] }
    | some previous =>
      if s.layoutChanged || !previous.isEquivalentTo next then
        { edits := ⟨[.update 0 item]⟩
          log := [⟨.trace, Log.tagged context.tag ("updating " ++ next.name)⟩] }
      else
        { edits := {}, log := [] }

/-- A section in printed values. -/
def text (s : Section) : String :=
  Text.record "SingleComponentSection" [
    ("component", s.component.text Component.text),
    ("sticky", s.sticky.text Text.bool),
    ("span_size", s.spanSize.text fun n => Text.nat n.toNat),
    ("is_full_span", s.fullSpan.text Text.bool)]

end Section

end Recycler

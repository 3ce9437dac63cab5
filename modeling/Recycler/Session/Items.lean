import Recycler.Session.Basic

/-!
# Commands about items

How a session makes components and descriptors, and renders sections. Descriptors are numbered in
the order in which they are issued; a section issues one only if its edits carry an item.
-/

namespace Recycler.Session

/-- Makes a component. -/
def makeComponent (s : Session) (into name : String) (equivalence : Equivalence) : Session :=
  let c : Component := { number := s.issuedComponents, equivalence, name }
  { s with
    issuedComponents := s.issuedComponents + 1
    registers := { s.registers with components := s.registers.components.put into c } }

/-- Puts the descriptor issued next into a register. -/
def issueItem (s : Session) (into : String) (item : Shared Descriptor) : Session :=
  { s with
    issuedItems := s.issuedItems + 1
    registers := { s.registers with items := s.registers.items.put into item } }

/-- What an item renders, with the component found in its register. -/
def content (s : Session) : Source → Except Trouble Content
  | .component name => return .component (← s.component name)
  | .view viewType => return .view viewType

/-- Makes a descriptor and replies with its number. -/
def makeItem (s : Session) (i : Nat) (into : String) (source : Source)
    (settings : List Descriptor.Setting) : Except Trouble Session := do
  let content ← s.content source
  let number := s.issuedItems
  return (s.issueItem into ⟨number, .build content settings⟩).answer i (.count number)

/-- The descriptor that edits carry, if they carry one. -/
def carriedItem? (edits : Edits) : Option (Shared Descriptor) := edits.list.findSome? Edit.item?

/-- Renders a section and replies with its edits. -/
def renderSection (s : Session) (i : Nat) (component : Diff String) (sticky : Diff Bool)
    (spanSize : Diff UInt32) (fullSpan : Diff Bool) (context : Section.Context)
    (into : Target) : Except Trouble Session := do
  let previous ← component.previous.mapM s.sideComponent
  let next ← component.next.mapM s.sideComponent
  let sec : Section := { component := ⟨previous, next⟩, sticky, spanSize, fullSpan }
  let outcome := sec.render context s.issuedItems s.allocations
  let s := { s.write outcome.log with allocations := s.allocations + 1 }
  match carriedItem? outcome.edits with
  | some item =>
    return s.fill i into fun name => (s.issueItem name item).answer i (.edits outcome.edits)
  | none => return s.answer i (.edits outcome.edits)

end Recycler.Session

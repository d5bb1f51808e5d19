import Selectors.Tree.Walk

/-!
# Slots

The children of a shadow host are shown in the slots of its shadow tree. A child names its slot, and
the first slot of that name takes it.

* `Tree.findSlot` is the slot of a node, `Tree.assignedNodes` the nodes of a slot.
-/

namespace Selectors.Tree

def isSlot (t : Tree) (n : NodeId) : Bool :=
  (t.element? n).any fun e => e.isHtml && e.localName == "slot"

/-- The name by which a node asks for a slot. Text asks for the one without a name, and what is
neither element nor text for none at all. -/
def slotName? (t : Tree) (n : NodeId) : Option String :=
  match t.data? n with
  | some (.element e) => some ((e.attributeIn? none "slot").getD "")
  | some (.text _) => some ""
  | _ => none

/-- The first slot in the shadow tree of the parent that has the name the node asks for. -/
def findSlot (t : Tree) (n : NodeId) : Option NodeId := do
  let name ← t.slotName? n
  let host ← t.parent n
  let shadow ← t.shadowRoot host
  (t.descendants shadow).find? fun s =>
    t.isSlot s && (t.attributeIn? s none "name").getD "" == name

/-- The children of the host that the slot takes, in their order. -/
def assignedNodes (t : Tree) (slot : NodeId) : List NodeId :=
  if t.isSlot slot then
    match t.shadowHost (t.rootOf slot) with
    | some host => (t.children host).filter fun c => t.findSlot c == some slot
    | none => []
  else
    []

end Selectors.Tree

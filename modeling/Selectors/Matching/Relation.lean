import Selectors.Compiled.Basic
import Selectors.Cursor

/-!
# Relations between elements

A combinator relates the element on its right to one on its left. The relation is followed from
right to left where a candidate is tested, from left to right where elements are collected, and is
tested where both ends are known.

* `TreeView.leftOf`, `TreeView.rightOf` and `TreeView.related` are the three.
-/

namespace Selectors.TreeView

variable (t : TreeView)

/-- The nearest element before a node. -/
def previousElement? (n : NodeId) : Option NodeId :=
  (t.precedingSiblings n).find? t.isElement

/-- The nearest element after a node. -/
def nextElement? (n : NodeId) : Option NodeId :=
  (t.followingSiblings n).find? t.isElement

/-- The nodes that may stand on the left of a combinator with a node on its right, the nearest
first. -/
def leftOf (n : NodeId) : Combinator → List NodeId
  | .descendant => t.ancestors n
  | .child => (t.parent n).toList
  | .nextSibling => (t.previousElement? n).toList
  | .subsequentSibling => (t.precedingSiblings n).filter t.isElement
  | .slot => (t.assignedSlot n).toList

/-- The nodes that may stand on the right of a combinator with a node on its left. -/
def rightOf (n : NodeId) : Combinator → List NodeId
  | .descendant => t.elementsBelow n
  | .child => t.elementChildren n
  | .nextSibling => (t.nextElement? n).toList
  | .subsequentSibling => (t.followingSiblings n).filter t.isElement
  | .slot => t.assignedNodes n

/-- Whether a combinator relates the node `right` to the node `left`. -/
def related (left right : NodeId) : Combinator → Bool
  | .descendant => (t.ancestors right).contains left
  | .child => t.parent right == some left
  | .nextSibling => t.previousElement? right == some left
  | .subsequentSibling => (t.precedingSiblings right).contains left
  | .slot => t.assignedSlot right == some left

end Selectors.TreeView

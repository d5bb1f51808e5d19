import Selectors.View

/-!
# Cursors

A cursor is a place in a walk through the nodes below a root: a node and the nodes between it and
the root. It moves to the next node of the walk, or straight to any node below the root.

* `Cursor.next` goes on in tree order and ends behind the last node below the root.
* `Cursor.moveTo` climbs from the target until it meets the cursor's own path.
* `TreeView.descendants` are the nodes that a walk from a root visits.
-/

namespace Selectors

/-- A node below a root, and the nodes above it up to the root, the nearest first. -/
structure Cursor where
  root : NodeId
  node : NodeId
  above : List NodeId
  deriving DecidableEq, Repr

namespace Cursor

/-- A cursor on the root itself. -/
def start (root : NodeId) : Cursor :=
  { root, node := root, above := [] }

/-- The number of steps from the root down to the node. -/
def depth (c : Cursor) : Nat :=
  c.above.length

/-- The next sibling of a node or of the nearest node above it that has one, below the root. -/
def climb (t : TreeView) (root node : NodeId) (above : List NodeId) : Option Cursor :=
  if node = root then
    none
  else
    match t.next node with
    | some s => some { root, node := s, above }
    | none =>
      match above with
      | p :: above => climb t root p above
      | [] => none

/-- The next node of the walk: the first child, or else what follows the node or one above it. -/
def next (t : TreeView) (c : Cursor) : Option Cursor :=
  match t.firstChild c.node with
  | some child => some { c with node := child, above := c.node :: c.above }
  | none => climb t c.root c.node c.above

/-- The path above a target whose ancestors are given, once they meet the cursor's node or path. -/
def meet (c : Cursor) : List NodeId → Option (List NodeId)
  | [] => none
  | a :: as =>
    if a = c.node then some (a :: c.above)
    else if a ∈ c.above then some (c.above.dropWhile (· ≠ a))
    else (meet c as).map (a :: ·)

/-- Moves to a target at or below the root. -/
def moveTo (t : TreeView) (c : Cursor) (target : NodeId) : Option Cursor :=
  if target = c.node then some c
  else if target = c.root then some (start c.root)
  else (c.meet (t.ancestors target)).map fun above => { c with node := target, above }

/-- The nodes that the walk visits after the cursor, at most `bound` of them. -/
def rest (t : TreeView) : Nat → Cursor → List NodeId
  | 0, _ => []
  | bound + 1, c =>
    match c.next t with
    | some d => d.node :: rest t bound d
    | none => []

end Cursor

namespace TreeView

/-- The nodes below a node, in tree order. -/
def descendants (t : TreeView) (n : NodeId) : List NodeId :=
  (Cursor.start n).rest t t.size

/-- The elements below a node, in tree order. -/
def elementsBelow (t : TreeView) (n : NodeId) : List NodeId :=
  (t.descendants n).filter t.isElement

end TreeView

end Selectors

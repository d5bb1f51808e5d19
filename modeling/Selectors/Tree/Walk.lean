import Selectors.Tree.Basic

/-!
# Walks through a tree

A walk follows links from node to node. In a tree no walk meets a node twice, so none is longer than
the store, and that bounds it.

* `follow` repeats one link, such as to the parent or to the next sibling.
* `preorder` visits nodes before their children and children in order.
* `Tree.ancestors`, `Tree.precedingSiblings`, `Tree.followingSiblings` and `Tree.descendants` are
  the four walks; none of them enters or leaves a shadow tree.
-/

namespace Selectors

/-- The nodes that repeating a link reaches, at most `bound` of them. -/
def follow (link : NodeId → Option NodeId) : Nat → NodeId → List NodeId
  | 0, _ => []
  | bound + 1, n =>
    match link n with
    | some m => m :: follow link bound m
    | none => []

/-- The nodes on a stack and all below them, each before its children, at most `bound` of them. -/
def preorder (children : NodeId → List NodeId) : Nat → List NodeId → List NodeId
  | 0, _ => []
  | _ + 1, [] => []
  | bound + 1, n :: stack => n :: preorder children bound (children n ++ stack)

namespace Tree

/-- The nodes above a node, its parent first. -/
def ancestors (t : Tree) (n : NodeId) : List NodeId :=
  follow t.parent t.size n

/-- The siblings before a node, the nearest first. -/
def precedingSiblings (t : Tree) (n : NodeId) : List NodeId :=
  follow t.previous t.size n

/-- The siblings after a node, the nearest first. -/
def followingSiblings (t : Tree) (n : NodeId) : List NodeId :=
  follow t.next t.size n

/-- The nodes below a node, in tree order. -/
def descendants (t : Tree) (n : NodeId) : List NodeId :=
  preorder t.children t.size (t.children n)

/-- The node without a parent above a node, or the node itself. -/
def rootOf (t : Tree) (n : NodeId) : NodeId :=
  (t.ancestors n).getLast?.getD n

def isDescendant (t : Tree) (n ancestor : NodeId) : Bool :=
  (t.ancestors n).contains ancestor

/-- The nodes from the root of its tree down to a node. -/
def path (t : Tree) (n : NodeId) : List NodeId :=
  (n :: t.ancestors n).reverse

end Tree

end Selectors

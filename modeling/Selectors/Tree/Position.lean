import Selectors.Tree.Walk

/-!
# Document positions

Two different nodes are either one above the other, or apart in one tree, or in two trees. In each
case one of them comes first: a node before those below it, an earlier branch before a later one,
and of two trees the one whose root was made first.

* `Position` is where a second node lies as seen from a first one.
* `Tree.position` compares the paths to the two nodes.
* `Position.bits` is the mask in which documents report it.
-/

namespace Selectors

/-- Where a second node lies as seen from a first one. -/
inductive Position where
  | same
  /-- The second is above the first. -/
  | contains
  /-- The second is below the first. -/
  | containedBy
  | preceding
  | following
  /-- They are in different trees; the second comes later if `follows`. -/
  | disconnected (follows : Bool)
  deriving DecidableEq, Repr

namespace Position

/-- Whether the second node comes later. -/
def isFollowing : Position → Bool
  | containedBy | following | disconnected true => true
  | _ => false

/-- Whether the second node comes earlier. -/
def isPreceding : Position → Bool
  | contains | preceding | disconnected false => true
  | _ => false

/-- The sum of the flags: disconnected 1, preceding 2, following 4, contains 8, contained by 16, and
32 where the order is the store's own. -/
def bits : Position → Nat
  | same => 0
  | contains => 8 + 2
  | containedBy => 16 + 4
  | preceding => 2
  | following => 4
  | disconnected true => 1 + 32 + 4
  | disconnected false => 1 + 32 + 2

end Position

namespace Tree

/-- The order of two paths from below a common node `parent` on: where they part, the order of the
children decides. -/
def branchOrder (t : Tree) (parent : NodeId) : List NodeId → List NodeId → Position
  | a :: as, b :: bs =>
    if a = b then
      t.branchOrder a as bs
    else if (t.children parent).idxOf b < (t.children parent).idxOf a then
      .preceding
    else
      .following
  | _, _ => .following

/-- Where `b` lies as seen from `a`. -/
def position (t : Tree) (a b : NodeId) : Position :=
  if a = b then
    .same
  else if t.rootOf a ≠ t.rootOf b then
    .disconnected (decide (t.rootOf a < t.rootOf b))
  else if b ∈ t.ancestors a then
    .contains
  else if a ∈ t.ancestors b then
    .containedBy
  else
    t.branchOrder root (t.path a) (t.path b)

end Tree

end Selectors

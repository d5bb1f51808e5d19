import Selectors.Compiled.Compile
import Selectors.Matching.Basic
import Selectors.Settings

/-!
# Queries

A query looks below a reference node for the elements that a selector matches, and `:scope` stands
for the reference. Most members of a selector are tested on one candidate after another. A member
that starts with an id is followed from the elements with that id instead, wherever they stand in
the tree, and of what it leads to only what lies below the reference counts.

* `Matcher.candidateMatches` are the results of the first way, `Matcher.followedMatches` those of
  the second.
* `Query.find` answers for one of the four targets.
-/

namespace Selectors

/-- What a query asks for. -/
inductive Target where
  /-- All matches below the reference. -/
  | all
  /-- The first match below the reference. -/
  | first
  /-- The reference itself. -/
  | itself
  /-- The reference or the nearest match above it. -/
  | nearest
  deriving DecidableEq, Repr

namespace Matcher

variable (m : Matcher)

/-- Whether some of the members match a node. -/
def matchesSome (members : List ComplexId) (n : NodeId) : Matching Bool :=
  members.anyM fun c => m.matchesComplex c n

/-- The nodes among the given ones that some member matches; only the first if that is enough. -/
def collect (members : List ComplexId) (firstOnly : Bool) : List NodeId → Matching (List NodeId)
  | [] => return []
  | n :: ns => do
    if ← m.matchesSome members n then
      if firstOnly then return [n] else return n :: (← collect members firstOnly ns)
    else
      collect members firstOnly ns

/-- The elements below the reference that some member matches. -/
def candidateMatches (reference : NodeId) (members : List ComplexId) (firstOnly : Bool) :
    Matching (List NodeId) :=
  if members.isEmpty then return []
  else m.collect members firstOnly (m.tree.elementsBelow reference)

/-- What each node leads to by a combinator, as far as it passes a compound. -/
def step (q : Combinator) (c : CompoundId) (ns : List NodeId) : Matching (List NodeId) :=
  ns.flatMapM fun n => (m.tree.rightOf n q).filterM (m.matchesCompound c)

/-- What the nodes lead to by a row of combinators. Nothing leads nowhere, and nothing more is
tested. -/
def followFrom : List (Combinator × CompoundId) → List NodeId → Matching (List NodeId)
  | [], ns => return ns
  | (q, c) :: more, ns => do
    let next := m.tree.sortNodes (← m.step q c ns)
    if next.isEmpty then return []
    followFrom more next

/-- The elements in the tree of the reference that a member leads to from its first compound. -/
def followMember (reference : NodeId) (id : ComplexId) : Matching (List NodeId) := do
  let c := m.arena.complex id
  let start ← (m.tree.elementsBelow (m.tree.rootOf reference)).filterM (m.matchesCompound c.first)
  m.followFrom c.joined start

/-- The nodes among the given ones that lie below the cursor's root, other than the root itself. -/
def keepBelow (cursor : Cursor) : List NodeId → List NodeId
  | [] => []
  | n :: ns =>
    if n = cursor.root then keepBelow cursor ns
    else
      match cursor.moveTo m.tree n with
      | some next => n :: keepBelow next ns
      | none => keepBelow cursor ns

/-- The elements below the reference that the members lead to. -/
def followedMatches (reference : NodeId) (members : List ComplexId) : Matching (List NodeId) :=
  members.flatMapM fun c => do
    return m.keepBelow (Cursor.start reference) (← m.followMember reference c)

/-- Whether a member is followed from its first compound. One that asks for related elements inside
of another list is not. -/
def isFollowed (id : ComplexId) : Bool :=
  let c := m.arena.complex id
  c.direction == .descend && !c.compounds.any fun d => (m.arena.compound d).hasNestedHas

/-- Whether a node can have elements below it. -/
def isReference (n : NodeId) : Bool :=
  match m.tree.kind n with
  | .document | .fragment | .shadowRoot | .element => true
  | _ => false

/-- The matches below the reference in document order; only the first if that is enough. Candidates
are given up early only where no member is followed. -/
def matchesBelow (reference : NodeId) (firstOnly : Bool) : Matching (List NodeId) := do
  if !m.isReference reference then
    return []
  let (followed, tested) := (m.arena.list m.root).complexes.partition m.isFollowed
  let found ← m.candidateMatches reference tested (firstOnly && followed.isEmpty)
  let found ←
    if followed.isEmpty then pure found
    else do
      let more ← m.followedMatches reference followed
      pure (m.tree.sortNodes (found ++ more))
  return if firstOnly then found.take 1 else found

/-- Whether the selector matches the node itself. A shadow root stands for its host. -/
def matchesItself (n : NodeId) : Matching Bool :=
  match m.tree.kind n with
  | .element | .shadowRoot => m.matchesNode n
  | _ => return false

/-- The first of some nodes that is an element and matches. -/
def firstMatch : List NodeId → Matching (Option NodeId)
  | [] => return none
  | n :: ns => do
    if m.tree.isElement n then
      if ← m.matchesNode n then
        return some n
    firstMatch ns

/-- The element or the nearest element above it that matches. -/
def nearestMatch (n : NodeId) : Matching (Option NodeId) :=
  if m.tree.isElement n then m.firstMatch (n :: m.tree.ancestors n) else return none

end Matcher

/-- A selector and the node from which it is asked. -/
structure Query where
  matcher : Matcher
  reference : NodeId

namespace Query

/-- The query of a selector from a node, in whose shadow tree `:host` stands for the host. -/
def of (t : TreeView) (s : CompiledSelector) (reference : NodeId) (settings : Settings) :
    Query where
  matcher :=
    { tree := t, arena := s.arena, root := s.root, scope := some reference
      shadow := t.shadowScope reference, readers := settings.readers, strict := settings.strict }
  reference := reference

/-- The answer for a target. -/
def find (q : Query) : Target → Matching (List NodeId)
  | .all => q.matcher.matchesBelow q.reference false
  | .first => q.matcher.matchesBelow q.reference true
  | .itself => do
    return if ← q.matcher.matchesItself q.reference then [q.reference] else []
  | .nearest => do return (← q.matcher.nearestMatch q.reference).toList

end Query

end Selectors

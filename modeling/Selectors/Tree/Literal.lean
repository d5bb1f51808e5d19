import Selectors.Tree.Mutation

/-!
# Written trees

A whole subtree can be written down at once and built below a parent. It gets its places in the
order of its text: an element, what is in it, its shadow root, and what is in that.

* `NodeLiteral` is a written node, `Tree.build` and `Tree.buildAll` add it to a tree.
-/

namespace Selectors

/-- A node written down with all below it. -/
inductive NodeLiteral where
  | text (data : String)
  | comment (data : String)
  /-- An element; without a namespace it is made in the document's own language. -/
  | element (name : String) (space : Option (Option String)) (attributes : List (String × String))
      (spaced : List (Option String × String × String)) (live : LiveState)
      (children : List NodeLiteral) (shadow : Option (ShadowMode × List NodeLiteral))
  deriving Inhabited

namespace Tree

/-- Sets attributes by their qualified names. -/
def setAttributes (t : Tree) (n : NodeId) (as : List (String × String)) : Tree :=
  as.foldl (fun t (name, value) => t.setAttribute n name value) t

/-- Sets attributes by namespace and name. -/
def setAttributesIn (t : Tree) (n : NodeId) (as : List (Option String × String × String)) : Tree :=
  as.foldl (fun t (space, name, value) => t.setAttributeIn n space name value) t

/-- Makes a node and appends it to a parent. -/
def addNode (t : Tree) (parent : NodeId) (data : NodeData) : Tree × NodeId :=
  let (t, n) := t.create data
  (t.append parent n, n)

/-- Makes an element with its attributes and appends it to a parent. -/
def addElement (t : Tree) (parent : NodeId) (name : String) (space : Option (Option String))
    (attributes : List (String × String)) (spaced : List (Option String × String × String))
    (live : LiveState) : Tree × NodeId :=
  let (t, n) := space.elim (t.createElement name) fun s => t.createElementIn s name
  let t := (t.setAttributes n attributes).append parent n
  ((t.setAttributesIn n spaced).setLive n fun _ => live, n)

mutual

/-- Builds a node as the last child of a parent. -/
def build (t : Tree) (parent : NodeId) : NodeLiteral → Tree × NodeId
  | .text data => t.addNode parent (.text data)
  | .comment data => t.addNode parent (.comment data)
  | .element name space attributes spaced live children shadow =>
    let (t, n) := t.addElement parent name space attributes spaced live
    let (t, _) := buildAll t n children
    match shadow with
    | none => (t, n)
    | some (mode, inside) =>
      match t.attachShadow n mode with
      | (t, some r) => ((buildAll t r inside).1, n)
      | (t, none) => (t, n)

/-- Builds nodes in order as the last children of a parent. -/
def buildAll (t : Tree) (parent : NodeId) : List NodeLiteral → Tree × List NodeId
  | [] => (t, [])
  | l :: ls =>
    let (t, n) := build t parent l
    let (t, ns) := buildAll t parent ls
    (t, n :: ns)

end

end Tree

end Selectors

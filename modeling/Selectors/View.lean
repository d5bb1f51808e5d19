import Selectors.Tree.Position
import Selectors.Tree.Slot

/-!
# What matching sees of a tree

Matching reads a tree through a view: the kind and the links of each node, names, attributes and
text, and where the host of the tree provides them, shadow trees, slots and states. A view that
leaves these out describes a tree without them.

* `TreeView` is the view; `Tree.view` shows a whole tree, `Tree.bareView` its structure only, and
  `Tree.orphanView` its structure without a document.
* The functions on `TreeView` are what can be found out from the links alone.
-/

namespace Selectors

/-- The kinds of nodes that matching tells apart. -/
inductive NodeKind where
  | document
  | fragment
  | shadowRoot
  | element
  | text
  | comment
  /-- Anything else, and places that hold no node. -/
  | other
  deriving DecidableEq, Repr

/-- What matching sees of a tree. -/
structure TreeView where
  /-- A bound on the number of nodes, and so on the length of walks. -/
  size : Nat
  kind : NodeId → NodeKind
  parent : NodeId → Option NodeId
  firstChild : NodeId → Option NodeId
  lastChild : NodeId → Option NodeId
  next : NodeId → Option NodeId
  previous : NodeId → Option NodeId
  localName : NodeId → Option String
  space : NodeId → Option String
  attributes : NodeId → List Attribute
  text : NodeId → Option String
  ownerDocument : NodeId → Option NodeId
  position : NodeId → NodeId → Position
  namePrefix : NodeId → Option String := fun _ => none
  isHtmlDocument : NodeId → Bool := fun _ => true
  documentState : NodeId → DocumentState := fun _ => {}
  shadowHost : NodeId → Option NodeId := fun _ => none
  shadowRoot : NodeId → Option NodeId := fun _ => none
  assignedSlot : NodeId → Option NodeId := fun _ => none
  assignedNodes : NodeId → List NodeId := fun _ => []
  live : NodeId → LiveState := fun _ => {}

namespace Tree

def kind (t : Tree) (n : NodeId) : NodeKind :=
  match t.data? n with
  | some .document => .document
  | some .fragment => .fragment
  | some (.shadowRoot ..) => .shadowRoot
  | some (.element _) => .element
  | some (.text _) => .text
  | some (.comment _) => .comment
  | none => .other

/-- The structure of a tree: links, names, attributes and text. -/
def bareView (t : Tree) : TreeView where
  size := t.size
  kind := t.kind
  parent := t.parent
  firstChild := t.firstChild
  lastChild := t.lastChild
  next := t.next
  previous := t.previous
  localName n := (t.element? n).map Element.localName
  space n := (t.element? n).bind Element.space
  attributes n := ((t.element? n).map Element.attributes).getD []
  text := t.text?
  ownerDocument _ := some root
  position := t.position

/-- The structure of a tree, of which no node belongs to a document. -/
def orphanView (t : Tree) : TreeView :=
  { t.bareView with ownerDocument := fun _ => none }

/-- All of a tree. -/
def view (t : Tree) : TreeView :=
  { t.bareView with
    namePrefix := fun n => (t.element? n).bind Element.namePrefix
    isHtmlDocument := fun _ => t.isHtml
    documentState := fun _ => t.document
    shadowHost := t.shadowHost
    shadowRoot := t.shadowRoot
    assignedSlot := t.findSlot
    assignedNodes := t.assignedNodes
    live := fun n => ((t.element? n).map Element.live).getD {} }

end Tree

namespace TreeView

variable (t : TreeView)

def isElement (n : NodeId) : Bool :=
  t.kind n == .element

/-- The value of an attribute in no namespace. -/
def attribute? (n : NodeId) (name : String) : Option String :=
  ((t.attributes n).find? fun a => a.space == none && a.localName == name).map Attribute.value

/-- The value of an attribute in a namespace. -/
def attributeIn? (n : NodeId) (space name : String) : Option String :=
  ((t.attributes n).find? fun a => a.space == some space && a.localName == name).map
    Attribute.value

def hasAttribute (n : NodeId) (name : String) : Bool :=
  (t.attribute? n name).isSome

/-- The node and the siblings after it. -/
def siblingsFrom (n : NodeId) : List NodeId :=
  n :: follow t.next t.size n

def children (n : NodeId) : List NodeId :=
  (t.firstChild n).elim [] t.siblingsFrom

/-- The siblings before a node, the nearest first. -/
def precedingSiblings (n : NodeId) : List NodeId :=
  follow t.previous t.size n

/-- The siblings after a node, the nearest first. -/
def followingSiblings (n : NodeId) : List NodeId :=
  follow t.next t.size n

/-- The nodes above a node in its own tree, its parent first. -/
def ancestors (n : NodeId) : List NodeId :=
  follow t.parent t.size n

def elementChildren (n : NodeId) : List NodeId :=
  (t.children n).filter t.isElement

/-- The root of a node's own tree. -/
def rootOf (n : NodeId) : NodeId :=
  (t.ancestors n).getLast?.getD n

/-- The shadow root above a node, if its tree is a shadow tree. -/
def shadowScope (n : NodeId) : Option NodeId :=
  if t.kind (t.rootOf n) = .shadowRoot then some (t.rootOf n) else none

/-- The local name of an element in the HTML namespace. -/
def htmlName? (n : NodeId) : Option String :=
  if t.space n = some Namespace.html then t.localName n else none

/-- Whether a node is an HTML element with the name. -/
def isHtml (n : NodeId) (name : String) : Bool :=
  t.htmlName? n == some name

/-- The parent of a node, or the host where the parent is a shadow root, or the node is one. -/
def hostingParent (n : NodeId) : Option NodeId :=
  match t.parent n with
  | some p => if t.kind p = .shadowRoot then t.shadowHost p else some p
  | none => if t.kind n = .shadowRoot then t.shadowHost n else none

/-- The node and all above it, shadow roots left out for their hosts. -/
def hostingAncestors (n : NodeId) : List NodeId :=
  n :: follow t.hostingParent t.size n

/-- The state of the document that a node belongs to. -/
def stateOfDocument (n : NodeId) : DocumentState :=
  (t.ownerDocument n).elim {} t.documentState

/-! ### Order -/

/-- Whether the first node stands before the second, or is the same. -/
def precedesOrSame (a b : NodeId) : Bool :=
  a == b || (t.position a b).isFollowing

/-- Drops each node that equals the one before it. -/
def dropRepeats : List NodeId → List NodeId
  | a :: b :: rest => if a = b then dropRepeats (b :: rest) else a :: dropRepeats (b :: rest)
  | ns => ns

/-- The nodes in document order, each once. -/
def sortNodes (ns : List NodeId) : List NodeId :=
  dropRepeats (ns.mergeSort t.precedesOrSame)

end TreeView

end Selectors

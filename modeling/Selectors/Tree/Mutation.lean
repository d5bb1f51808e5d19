import Selectors.Tree.Basic

/-!
# Building and changing trees

Nodes are made at the end of the store and are then inserted, moved and removed. A node is in the
child list of its parent and of no other, and its sibling links are its neighbours there.

* `Tree.insertBefore` takes the child from its old place first, so a move is an insertion.
* `Tree.removeChild` leaves a tree as it is where the node is no child.
* `Tree.relink` restores the sibling links of one child list.
* `Tree.setAttribute`, `Tree.setAttributeIn` and `Tree.removeAttribute` change attribute lists.
-/

namespace Selectors.Tree

/-- Changes the node at a place; without a node there nothing changes. -/
def modify (t : Tree) (n : NodeId) (f : Node → Node) : Tree :=
  { t with nodes := t.nodes.modify n f }

/-- Changes the element at a place. -/
def modifyElement (t : Tree) (n : NodeId) (f : Element → Element) : Tree :=
  t.modify n fun node =>
    match node.data with
    | .element e => { node with data := .element (f e) }
    | _ => node

/-! ### Making nodes -/

/-- Adds a node without links at the end of the store. -/
def create (t : Tree) (data : NodeData) : Tree × NodeId :=
  ({ t with nodes := t.nodes.push { data } }, t.nodes.size)

/-- An element as the document's own language makes it: in small letters and in the HTML namespace,
or as written and in none. -/
def createElement (t : Tree) (name : String) : Tree × NodeId :=
  t.create <| .element <|
    if t.isHtml then Element.named (some Namespace.html) (Text.lower name)
    else Element.named none name

def createElementIn (t : Tree) (space : Option String) (name : String) : Tree × NodeId :=
  t.create (.element (Element.named space name))

/-! ### Inserting and removing -/

/-- Sets the sibling links of the nodes of a child list, where `before` is the node before them. -/
def relinkFrom (before : Option NodeId) (t : Tree) : List NodeId → Tree
  | [] => t
  | c :: rest =>
    relinkFrom (some c)
      (t.modify c fun node => { node with previous := before, next := rest.head? }) rest

/-- Sets the sibling links of all children of a node. -/
def relink (t : Tree) (parent : NodeId) : Tree :=
  relinkFrom none t (t.children parent)

/-- The list with `child` before the first `reference`, or at the end where there is none. -/
def placeBefore (child reference : NodeId) : List NodeId → List NodeId
  | [] => [child]
  | c :: cs => if c = reference then child :: c :: cs else c :: placeBefore child reference cs

/-- Takes a child out of its parent's list; it is then the root of a tree of its own. -/
def removeChild (t : Tree) (parent child : NodeId) : Tree :=
  if child ∈ t.children parent then
    relink
      ((t.modify parent fun node =>
        { node with children := node.children.erase child }).modify child
          fun node => { node with parent := none, previous := none, next := none })
      parent
  else
    t

/-- Takes a node from its parent, if it has one. -/
def detach (t : Tree) (child : NodeId) : Tree :=
  match t.parent child with
  | some old => t.removeChild old child
  | none => t

/-- Inserts a node among the children of `parent`, before `reference`, or last where `reference` is
no child once the node has left its old place. -/
def insertBefore (t : Tree) (parent child : NodeId) (reference : Option NodeId) : Tree :=
  let t := t.detach child
  let place (children : List NodeId) : List NodeId :=
    match reference with
    | some r => placeBefore child r children
    | none => children ++ [child]
  relink
    ((t.modify parent fun node => { node with children := place node.children }).modify child
      fun node => { node with parent := some parent })
    parent

def append (t : Tree) (parent child : NodeId) : Tree :=
  t.insertBefore parent child none

/-- The shadow root of an element, made on first demand; there is none for other nodes. -/
def attachShadow (t : Tree) (host : NodeId) (mode : ShadowMode) : Tree × Option NodeId :=
  match t.element? host with
  | none => (t, none)
  | some e =>
    match e.shadowRoot with
    | some r => (t, some r)
    | none =>
      let (t, r) := t.create (.shadowRoot host mode)
      (t.modifyElement host fun e => { e with shadowRoot := some r }, some r)

/-! ### Attributes -/

/-- Gives the first attribute that satisfies `p` a new form, or adds one at the end. -/
def putAttribute (p : Attribute → Bool) (change : Attribute → Attribute) (fresh : Attribute) :
    List Attribute → List Attribute
  | [] => [fresh]
  | a :: as => if p a then change a :: as else a :: putAttribute p change fresh as

/-- The name under which an attribute is set: in small letters on an HTML element of an HTML
document. -/
def attributeName (t : Tree) (n : NodeId) (name : String) : String :=
  if t.isHtml && (t.element? n).any Element.isHtml then Text.lower name else name

/-- Sets the attribute with a qualified name; a new one has no namespace. -/
def setAttribute (t : Tree) (n : NodeId) (name value : String) : Tree :=
  let name := t.attributeName n name
  t.modifyElement n fun e =>
    { e with attributes := putAttribute (·.qualifiedName == name) ({ · with value })
              { localName := name, value } e.attributes }

/-- Sets the attribute with a namespace and a local name. What stands before the colon is taken from
the new name. -/
def setAttributeIn (t : Tree) (n : NodeId) (space : Option String) (name value : String) : Tree :=
  let (namePrefix, localName) := splitName name
  let space := nonEmpty space
  t.modifyElement n fun e =>
    { e with attributes :=
              putAttribute (fun a => a.space == space && a.localName == localName)
                ({ · with namePrefix, value }) { localName, namePrefix, space, value }
                e.attributes }

/-- Removes every attribute with a qualified name, which is taken as written. -/
def removeAttribute (t : Tree) (n : NodeId) (name : String) : Tree :=
  t.modifyElement n fun e =>
    { e with attributes := e.attributes.filter fun a => a.qualifiedName != name }

/-! ### State -/

def setLive (t : Tree) (n : NodeId) (f : LiveState → LiveState) : Tree :=
  t.modifyElement n fun e => { e with live := f e.live }

def setDocument (t : Tree) (f : DocumentState → DocumentState) : Tree :=
  { t with document := f t.document }

end Selectors.Tree

import Selectors.Text.Ascii

/-!
# Trees of nodes

A document and everything made for it live in one store, and a node is known by its place there. The
document itself is node 0; fragments, shadow roots and nodes not yet inserted are roots of trees of
their own.

* `Tree` is the store with the state of the document.
* `Tree.parent`, `Tree.children`, `Tree.previous` and `Tree.next` are the links of a node; a place
  where nothing is stored has none.
* `Element` is a name with attributes in the order in which they were set.
-/

namespace Selectors

/-- The place of a node in its tree's store. -/
abbrev NodeId := Nat

namespace Namespace

def html : String := "http://www.w3.org/1999/xhtml"

def xml : String := "http://www.w3.org/XML/1998/namespace"

def xmlns : String := "http://www.w3.org/2000/xmlns/"

end Namespace

/-- An attribute of an element. -/
structure Attribute where
  localName : String
  /-- What stands before the colon of its name. -/
  namePrefix : Option String := none
  space : Option String := none
  value : String
  deriving DecidableEq, Repr

/-- A name with what stands before its colon. -/
def qualify (namePrefix : Option String) (localName : String) : String :=
  match namePrefix with
  | some p => p ++ ":" ++ localName
  | none => localName

/-- What stands before the first colon of a name, if there is one, and the rest of it. -/
def splitName (name : String) : Option String × String :=
  match Text.cutAt? (· == ':') name.toList with
  | some (p, l) => (some (String.ofList p), String.ofList l)
  | none => (none, name)

/-- The empty namespace is none. -/
def nonEmpty (space : Option String) : Option String :=
  space.filter (· ≠ "")

namespace Attribute

def qualifiedName (a : Attribute) : String :=
  qualify a.namePrefix a.localName

end Attribute

/-- The state of an element that its attributes do not hold. Where it is open, the attributes
decide. -/
structure LiveState where
  value : Option String := none
  checked : Option Bool := none
  selected : Option Bool := none
  indeterminate : Bool := false
  defined : Option Bool := none
  modal : Bool := false
  popoverOpen : Bool := false
  deriving DecidableEq, Repr

structure Element where
  localName : String
  space : Option String
  namePrefix : Option String
  attributes : List Attribute := []
  shadowRoot : Option NodeId := none
  live : LiveState := {}
  deriving DecidableEq, Repr

namespace Element

/-- An element without attributes; a colon in the name separates its two parts. -/
def named (space : Option String) (name : String) : Element :=
  let (namePrefix, localName) := splitName name
  { localName, space := nonEmpty space, namePrefix }

def isHtml (e : Element) : Bool :=
  e.space == some Namespace.html

def qualifiedName (e : Element) : String :=
  qualify e.namePrefix e.localName

/-- The value of the first attribute with the qualified name. -/
def attribute? (e : Element) (name : String) : Option String :=
  (e.attributes.find? fun a => a.qualifiedName == name).map Attribute.value

/-- The value of the first attribute with the namespace and the local name. -/
def attributeIn? (e : Element) (space : Option String) (localName : String) : Option String :=
  (e.attributes.find? fun a => a.space == space && a.localName == localName).map Attribute.value

def id? (e : Element) : Option String :=
  e.attributeIn? none "id"

/-- The words of the class attribute. -/
def classes (e : Element) : List String :=
  Text.words ((e.attributeIn? none "class").getD "")

end Element

/-- Whether scripts outside may enter a shadow tree. -/
inductive ShadowMode where
  | opened
  | closed
  deriving DecidableEq, Repr

/-- What a node is. -/
inductive NodeData where
  | document
  | fragment
  | shadowRoot (host : NodeId) (mode : ShadowMode)
  | element (e : Element)
  | text (data : String)
  | comment (data : String)
  deriving DecidableEq, Repr

/-- A node and its links. -/
structure Node where
  data : NodeData
  parent : Option NodeId := none
  children : List NodeId := []
  previous : Option NodeId := none
  next : Option NodeId := none
  deriving DecidableEq, Repr

/-- In an HTML document the names of elements and attributes are read in small letters. -/
inductive ContentType where
  | html
  | xml
  deriving DecidableEq, Repr

/-- The state of a document that user and script give it. -/
structure DocumentState where
  url : Option String := none
  focused : Option NodeId := none
  /-- Whether the focus is shown. -/
  focusVisible : Bool := false
  hovered : Option NodeId := none
  active : Option NodeId := none
  /-- Whether the whole document can be edited. -/
  designMode : Bool := false
  deriving DecidableEq, Repr

structure Tree where
  content : ContentType
  document : DocumentState := {}
  nodes : Array Node
  deriving DecidableEq, Repr

namespace Tree

/-- The place of the document. -/
def root : NodeId := 0

/-- A document and nothing else. -/
def empty (content : ContentType) : Tree :=
  { content, nodes := #[{ data := .document }] }

def get? (t : Tree) (n : NodeId) : Option Node :=
  t.nodes[n]?

/-- The number of nodes in the store. -/
def size (t : Tree) : Nat :=
  t.nodes.size

def isHtml (t : Tree) : Bool :=
  t.content == .html

def data? (t : Tree) (n : NodeId) : Option NodeData :=
  (t.get? n).map Node.data

def parent (t : Tree) (n : NodeId) : Option NodeId :=
  (t.get? n).bind Node.parent

def children (t : Tree) (n : NodeId) : List NodeId :=
  ((t.get? n).map Node.children).getD []

def firstChild (t : Tree) (n : NodeId) : Option NodeId :=
  (t.children n).head?

def lastChild (t : Tree) (n : NodeId) : Option NodeId :=
  (t.children n).getLast?

def previous (t : Tree) (n : NodeId) : Option NodeId :=
  (t.get? n).bind Node.previous

def next (t : Tree) (n : NodeId) : Option NodeId :=
  (t.get? n).bind Node.next

def element? (t : Tree) (n : NodeId) : Option Element :=
  match t.data? n with
  | some (.element e) => some e
  | _ => none

def text? (t : Tree) (n : NodeId) : Option String :=
  match t.data? n with
  | some (.text s) => some s
  | _ => none

def attribute? (t : Tree) (n : NodeId) (name : String) : Option String :=
  (t.element? n).bind (·.attribute? name)

def attributeIn? (t : Tree) (n : NodeId) (space : Option String) (localName : String) :
    Option String :=
  (t.element? n).bind (·.attributeIn? space localName)

/-- The shadow root of an element. -/
def shadowRoot (t : Tree) (n : NodeId) : Option NodeId :=
  (t.element? n).bind Element.shadowRoot

/-- The element that a shadow root belongs to. -/
def shadowHost (t : Tree) (n : NodeId) : Option NodeId :=
  match t.data? n with
  | some (.shadowRoot host _) => some host
  | _ => none

/-! ### Parts of the document -/

/-- The first child of the document that is an element. -/
def documentElement? (t : Tree) : Option NodeId :=
  (t.children root).find? fun n => (t.element? n).isSome

/-- The first child of the document element that is an HTML element with one of the names. -/
def partOfDocument? (t : Tree) (names : List String) : Option NodeId :=
  t.documentElement?.bind fun top =>
    (t.children top).find? fun n =>
      (t.element? n).any fun e => e.isHtml && names.contains e.localName

def head? (t : Tree) : Option NodeId :=
  t.partOfDocument? ["head"]

def body? (t : Tree) : Option NodeId :=
  t.partOfDocument? ["body", "frameset"]

end Tree

end Selectors

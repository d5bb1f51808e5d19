import Selectors.Control.Validity
import Selectors.Link
import Selectors.Pseudo.Class

/-!
# States of elements

A pseudo-class that stands alone asks for a state: where the element stands among others, what the
user does with it, or what a control holds.

* `TreeView.inState` is the test, given the node that `:scope` stands for.
-/

namespace Selectors.TreeView

variable (t : TreeView)

/-! ### Structure -/

def sameType (a b : NodeId) : Bool :=
  t.localName a == t.localName b && t.space a == t.space b

/-- Whether no sibling is an element for which `counts` holds. -/
def isOnly (counts : NodeId → Bool) (n : NodeId) : Bool :=
  !(t.precedingSiblings n ++ t.followingSiblings n).any fun s => t.isElement s && counts s

/-- Whether a node is a child of a document. -/
def isRoot (n : NodeId) : Bool :=
  (t.parent n).any fun p => t.kind p == .document

/-- Whether an element holds no element and no text, blanks counting as text. -/
def isEmpty (n : NodeId) : Bool :=
  (t.children n).all fun c =>
    match t.kind c with
    | .element => false
    | .text => (t.text c).all String.isEmpty
    | _ => true

/-- Whether a node is the one that `:scope` stands for. A document is represented by its root, and
so is no node at all. -/
def isScope (scope : Option NodeId) (n : NodeId) : Bool :=
  match scope with
  | none => t.isRoot n
  | some s => s == n || (t.kind s == .document && t.isRoot n)

/-- Whether an element is known to documents. A name with a hyphen is not, unless it was defined. -/
def isDefined (n : NodeId) : Bool :=
  (t.live n).defined.getD ((t.htmlName? n).all fun name => !name.toList.contains '-')

/-! ### What the user does -/

/-- Whether a node is `target` or stands around it, hosts included. -/
def isAround (n : NodeId) (target : Option NodeId) : Bool :=
  target.any fun m => (t.hostingAncestors m).contains n

/-- The host of the shadow tree that a node stands in. -/
def ownHost? (n : NodeId) : Option NodeId :=
  (t.shadowScope n).bind t.shadowHost

/-- Whether a node has the focus. A host has the focus of its shadow tree. -/
def isFocused (n : NodeId) : Bool :=
  (t.stateOfDocument n).focused.any fun m => (m :: follow t.ownHost? t.size m).contains n

/-! ### Display -/

/-- Whether an element that can be open is. -/
def isOpen? (n : NodeId) : Option Bool :=
  if t.isHtml n "details" || t.isHtml n "dialog" then some (t.hasAttribute n "open") else none

/-- Whether an element is in a state. Nobody is told which links were visited. -/
def inState (readers : Readers) (scope : Option NodeId) (n : NodeId) : ElementState → Bool
  | .onlyChild => t.isOnly (fun _ => true) n
  | .onlyOfType => t.isOnly (t.sameType n) n
  | .root => t.isRoot n
  | .empty => t.isEmpty n
  | .scope => t.isScope scope n
  | .defined => t.isDefined n
  | .anyLink | .link => t.isLink n
  | .visited => false
  | .localLink => t.isLocalLink readers n
  | .target => t.target? readers n == some n
  | .targetWithin => t.isAround n (t.target? readers n)
  | .hover => t.isAround n (t.stateOfDocument n).hovered
  | .active => t.isAround n (t.stateOfDocument n).active
  | .focus => t.isFocused n
  | .focusVisible =>
    (t.stateOfDocument n).focusVisible && (t.stateOfDocument n).focused == some n
  | .focusWithin => t.isAround n (t.stateOfDocument n).focused
  | .enabled => t.isEnabled n
  | .disabled => t.isDisabled n
  | .readOnly => !t.isReadWrite n
  | .readWrite => t.isReadWrite n
  | .placeholderShown => t.isPlaceholderShown n
  | .byDefault => t.isDefault n
  | .checked => t.isChecked n
  | .indeterminate => t.isIndeterminate n
  | .valid => t.isValid? readers n == some true
  | .invalid => t.isValid? readers n == some false
  | .inRange => t.inRange? n == some true
  | .outOfRange => t.inRange? n == some false
  | .required => t.required? n == some true
  | .optional => t.required? n == some false
  | .opened => t.isOpen? n == some true
  | .closed => t.isOpen? n == some false
  | .modal => t.isHtml n "dialog" && (t.live n).modal
  | .popoverOpen => t.hasAttribute n "popover" && (t.live n).popoverOpen

end Selectors.TreeView

import Selectors.Control.Value
import Selectors.Text.Strong

/-!
# The direction of elements

An element's text runs as its `dir` attribute says, as its content does, or as the text around it.

* `TreeView.directionOf` looks at the element and then at those it stands in.
* `TreeView.autoDirection` is the direction that content decides: the first strong character of it,
  where elements with a direction of their own do not count, and a slot shows what is assigned to
  it.

Content is searched with a stack of nodes, and a slot met on the way starts a search of its own. All
searches run within a bound, on the nodes that one takes from its stack and on how deep searches
start others, and a search that reaches its bound gives `none` where one that ends gives
`some found`. The functions take the directions of characters as a parameter; `directionOf` takes
those of the table.
-/

namespace Selectors.TreeView

variable (t : TreeView) (strong : Char → Option TextDirection)

/-- The valid words of the `dir` attribute. -/
inductive DirState where
  | fixed (d : TextDirection)
  | auto
  deriving DecidableEq, Repr

def dirState? (n : NodeId) : Option DirState :=
  match (t.attribute? n "dir").map Text.lower with
  | some "ltr" => some (.fixed .ltr)
  | some "rtl" => some (.fixed .rtl)
  | some "auto" => some .auto
  | _ => none

/-- Elements whose content does not count for those around them. -/
def isolatesText (n : NodeId) : Bool :=
  t.isHtml n "bdi" || t.isHtml n "script" || t.isHtml n "style" || t.isHtml n "textarea"
    || (t.dirState? n).isSome

/-- Whether the direction of an element's content is that of the value it holds. -/
def directsByValue (n : NodeId) : Bool :=
  t.isHtml n "textarea" || t.isInput n InputType.hasText

/-- Whether an element shows what is assigned to it and not what it contains. -/
def showsAssigned (n : NodeId) : Bool :=
  t.isHtml n "slot" && t.kind (t.rootOf n) == .shadowRoot

def textDirection? (n : NodeId) : Option TextDirection :=
  (t.text n).bind (Text.firstStrongBy strong)

/-! ### The direction that content decides -/

section content

-- The outcome of a search of an element's content.
variable (content : NodeId → Option (Option TextDirection))

/-- What a node adds to the direction of the slot it is assigned to. -/
def slottedDirection (n : NodeId) : Option (Option TextDirection) :=
  match t.kind n with
  | .text => some (t.textDirection? strong n)
  | .element => if t.isolatesText n then some none else content n
  | _ => some none

/-- The direction of what is assigned to a slot. -/
def assignedDirection (slot : NodeId) : Option (Option TextDirection) :=
  (t.assignedNodes slot).findSomeM? (t.slottedDirection strong content)

/-- The direction that content decides for an element itself. -/
def autoDirectionBy (n : NodeId) : Option (Option TextDirection) :=
  if t.directsByValue n then some (Text.firstStrongBy strong (t.controlValue n))
  else if t.showsAssigned n then t.assignedDirection strong content n
  else content n

/-- The search of the nodes on a stack and of what they contain, which takes at most `bound` nodes
from the stack. -/
def searchStack : Nat → List NodeId → Option (Option TextDirection)
  | _, [] => some none
  | 0, _ :: _ => none
  | bound + 1, n :: stack =>
    match t.kind n with
    | .text =>
      match t.textDirection? strong n with
      | some d => some (some d)
      | none => searchStack bound stack
    | .element =>
      if t.isolatesText n then searchStack bound stack
      else if t.isHtml n "slot" then
        match t.autoDirectionBy strong content n with
        | some (some d) => some (some d)
        | some none => searchStack bound stack
        | none => none
      else searchStack bound (t.children n ++ stack)
    | _ => searchStack bound stack

end content

/-- The direction of an element's content, found by searches that start each other at most `bound`
deep. -/
def contentDirection : Nat → NodeId → Option (Option TextDirection)
  | 0, _ => none
  | bound + 1, n => t.searchStack strong (contentDirection bound) t.size (t.children n)

/-- The direction that content decides for an element. No chain of elements inside each other or
assigned to each other's slots is longer than there are nodes. -/
def autoDirection (n : NodeId) : Option (Option TextDirection) :=
  t.autoDirectionBy strong (t.contentDirection strong (t.size + 1)) n

/-! ### The direction of an element -/

/-- The direction that an element has whatever stands around it. -/
def ownDirection? (n : NodeId) : Option (Option TextDirection) :=
  match t.dirState? n with
  | some (.fixed d) => some (some d)
  | some .auto => (t.autoDirection strong n).map fun d => some (d.getD .ltr)
  | none =>
    if t.isHtml n "bdi" then (t.autoDirection strong n).map fun d => some (d.getD .ltr)
    else if t.isHtml n "input" && (t.attribute? n "type").any (Text.sameLetters · "tel") then
      some (some .ltr)
    else some none

/-- The element whose direction a node takes over: its parent, or the host of its shadow tree. -/
def directionParent (n : NodeId) : Option NodeId :=
  (t.parent n).bind fun p =>
    match t.kind p with
    | .element => some p
    | .shadowRoot => t.shadowHost p
    | _ => none

/-- The direction of an element, which it or one of the next `bound` elements around it decides;
from left to right if none does. -/
def directionWithin : Nat → NodeId → Option TextDirection
  | 0, _ => none
  | bound + 1, n =>
    match t.ownDirection? strong n with
    | some (some d) => some d
    | some none => (t.directionParent n).elim (some .ltr) (directionWithin bound)
    | none => none

/-- The direction of an element, from the directions of characters. -/
def directionBy (n : NodeId) : TextDirection :=
  (t.directionWithin strong (t.size + 1) n).getD .ltr

/-- The direction of an element. -/
def directionOf (n : NodeId) : TextDirection :=
  t.directionBy Text.strong? n

end Selectors.TreeView

import Selectors.Error
import Selectors.View

/-!
# What an element inherits

Some questions about an element are answered by the nearest element around it that says anything:
which namespace a prefix stands for, and whether the content can be edited.

* `TreeView.elementsAround` is the element and those it stands in.
* `TreeView.namespaceFor` finds the declaration of a prefix, and fails where there is none.
* `TreeView.isEditable` says whether the content can be edited.
-/

namespace Selectors.TreeView

variable (t : TreeView)

/-- The element and the elements it stands in, the nearest first. -/
def elementsAround (n : NodeId) : List NodeId :=
  (n :: t.ancestors n).takeWhile t.isElement

/-- The attribute of an element that declares a prefix. -/
def declaration? (name : String) (n : NodeId) : Option Attribute :=
  (t.attributes n).find? fun a =>
    (a.space == some Namespace.xmlns && a.localName == name)
      || (a.space == none && a.localName == "xmlns:" ++ name)

/-- The namespace that a prefix stands for. An empty declaration stands for none, and an element's
own prefix stands for its own namespace. -/
def namespaceFor (n : NodeId) (name : String) : Except SelectorError (Option String) :=
  match (t.elementsAround n).findSome? (t.declaration? name) with
  | some a => .ok (nonEmpty (some a.value))
  | none =>
    if t.namePrefix n = some name then .ok (t.space n) else .error (.undeclaredNamespace name)

/-- What an element says about editing its content. -/
def ownEditable? (n : NodeId) : Option Bool :=
  match (t.attribute? n "contenteditable").map Text.lower with
  | some "" | some "true" | some "plaintext-only" => some true
  | some "false" => some false
  | _ => none

/-- Whether the content of an element can be edited: the whole document can, or the nearest element
around it that says anything allows it. -/
def isEditable (n : NodeId) : Bool :=
  (t.stateOfDocument n).designMode
    || ((t.elementsAround n).findSome? t.ownEditable?).getD false

end Selectors.TreeView

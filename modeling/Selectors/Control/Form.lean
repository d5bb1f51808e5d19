import Selectors.Control.Value

/-!
# Forms and their buttons

A control belongs to the form that its `form` attribute names, or else to the nearest form around
it. The first button of a form that can send it is the one that stands for it.

* `TreeView.formOwner` is the form of a control.
* `TreeView.isDefaultButton` picks one button of a form.
-/

namespace Selectors.TreeView

variable (t : TreeView)

/-- The form that a control belongs to. A `form` attribute decides alone, also where it names no
form in the control's tree. -/
def formOwner (n : NodeId) : Option NodeId :=
  match t.attribute? n "form" with
  | some id =>
    (t.descendants (t.rootOf n)).find? fun m => t.isHtml m "form" && t.attribute? m "id" == some id
  | none => (t.ancestors n).find? fun a => t.isHtml a "form"

/-- Whether a control sends its form. A button does unless its type says otherwise. -/
def isSubmitButton (n : NodeId) : Bool :=
  if t.isHtml n "button" then
    !(t.attribute? n "type").any fun k => Text.sameLetters k "button" || Text.sameLetters k "reset"
  else
    t.isInput n InputType.submits

/-- Whether a control is the first of its form that sends it. -/
def isDefaultButton (n : NodeId) : Bool :=
  match t.formOwner n with
  | none => false
  | some form =>
    ((t.descendants (t.rootOf n)).find? fun m =>
      t.isSubmitButton m && t.formOwner m == some form) == some n

end Selectors.TreeView

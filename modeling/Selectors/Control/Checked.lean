import Selectors.Control.Disabled
import Selectors.Control.Form
import Selectors.Text.Blank

/-!
# Checked and selected controls

A checkbox or radio button is checked, and an option selected, by what the user did or else by its
attribute. A list that shows one option at a time always has one selected if it can: the last that
is to be, or else the first that is not disabled.

* `TreeView.optionsOf` are the options of a list, `TreeView.isSelected` says which of them count.
* `TreeView.radioGroup` are the radio buttons of which one is on at a time.
* `TreeView.isChecked`, `TreeView.isIndeterminate` and `TreeView.isDefault` are the states.
-/

namespace Selectors.TreeView

variable (t : TreeView)

/-! ### Options -/

/-- The list that an option belongs to, directly or in a group. -/
def owningSelect (n : NodeId) : Option NodeId :=
  (t.parent n).bind fun p =>
    if t.isHtml p "select" then some p
    else if t.isHtml p "optgroup" then (t.parent p).filter fun g => t.isHtml g "select"
    else none

/-- The options among the element children. -/
def optionChildren (n : NodeId) : List NodeId :=
  (t.elementChildren n).filter fun c => t.isHtml c "option"

/-- The options of a list in tree order, those in groups among them. -/
def optionsOf (select : NodeId) : List NodeId :=
  (t.elementChildren select).flatMap fun c =>
    if t.isHtml c "option" then [c]
    else if t.isHtml c "optgroup" then t.optionChildren c
    else []

/-- Whether the user or the attribute selects the option. -/
def asksSelection (n : NodeId) : Bool :=
  (t.live n).selected.getD (t.hasAttribute n "selected")

/-- The whole number that fills a text, up to a limit. A plus sign may go before it. -/
def boundedNumber? (limit : Nat) (s : String) : Option Nat :=
  let s := Text.trim s.toList
  let digits := (Text.dropLead? ['+'] s).getD s
  if digits.isEmpty || !digits.all Char.isDigit then none
  else
    let n := Text.natOfDigits digits
    if n ≤ limit then some n else none

/-- Whether a list shows one option at a time. -/
def selectsOne (select : NodeId) : Bool :=
  !t.hasAttribute select "multiple"
    && ((t.attribute? select "size").bind (boundedNumber? (Nat.pow 2 32 - 1))).all (· ≤ 1)

/-- The option that a list with one selection shows. -/
def chosenOption (select : NodeId) : Option NodeId :=
  let options := t.optionsOf select
  (options.reverse.find? t.asksSelection).or (options.find? fun o => !t.isDisabled o)

def isSelected (n : NodeId) : Bool :=
  match t.owningSelect n with
  | none => t.asksSelection n
  | some select =>
    if t.selectsOne select then t.chosenOption select == some n else t.asksSelection n

/-! ### Checkboxes and radio buttons -/

def isChecked (n : NodeId) : Bool :=
  if t.isInput n InputType.isCheckable then (t.live n).checked.getD (t.hasAttribute n "checked")
  else t.isHtml n "option" && t.isSelected n

/-- The radio buttons in the tree that share the name and the form with a radio button. One without
a name is alone. -/
def radioGroup (n : NodeId) : List NodeId :=
  let name := (t.attribute? n "name").getD ""
  if name.isEmpty then
    [n]
  else
    (t.descendants (t.rootOf n)).filter fun m =>
      t.isInput m (· == .radio) && t.attribute? m "name" == some name
        && t.formOwner m == t.formOwner n

/-- Whether a control is neither on nor off. -/
def isIndeterminate (n : NodeId) : Bool :=
  if t.isInput n (· == .checkbox) then (t.live n).indeterminate
  else if t.isInput n (· == .radio) then !(t.radioGroup n).any t.isChecked
  else t.isHtml n "progress" && !t.hasAttribute n "value"

/-- Whether a control is the one, or has the state, that its form starts with. -/
def isDefault (n : NodeId) : Bool :=
  if t.isSubmitButton n then t.isDefaultButton n
  else if t.isInput n InputType.isCheckable then t.hasAttribute n "checked"
  else t.isHtml n "option" && t.hasAttribute n "selected"

end Selectors.TreeView

import Selectors.Control.Value
import Selectors.Scope

/-!
# Disabled and writable elements

A control is disabled by its own attribute or by a disabled fieldset around it, except inside that
fieldset's first legend. What is not disabled and not read-only can be written to.

* `TreeView.inDisabledFieldset` goes up through the fieldsets.
* `TreeView.isDisabled`, `TreeView.isEnabled`, `TreeView.isReadWrite` and
  `TreeView.isPlaceholderShown` are the states.
-/

namespace Selectors.TreeView

variable (t : TreeView)

/-- The first child that is a legend. -/
def firstLegend? (n : NodeId) : Option NodeId :=
  (t.elementChildren n).find? fun c => t.isHtml c "legend"

/-- Whether one of the nodes above `child`, which are given in order, is a disabled fieldset whose
first legend is not on the way. -/
def disabledFrom (child : NodeId) : List NodeId → Bool
  | [] => false
  | a :: above =>
    (t.isHtml a "fieldset" && t.hasAttribute a "disabled" && t.firstLegend? a != some child)
      || disabledFrom a above

def inDisabledFieldset (n : NodeId) : Bool :=
  t.disabledFrom n (t.ancestors n)

/-- The elements that a fieldset disables. -/
def obeysFieldset (n : NodeId) : Bool :=
  ["button", "input", "select", "textarea", "fieldset"].any (t.isHtml n)

/-- Whether the parent is a disabled group of options. -/
def inDisabledGroup (n : NodeId) : Bool :=
  (t.parent n).any fun p => t.isHtml p "optgroup" && t.hasAttribute p "disabled"

def isDisabled (n : NodeId) : Bool :=
  let own := t.hasAttribute n "disabled"
  if t.obeysFieldset n then own || t.inDisabledFieldset n
  else if t.isHtml n "optgroup" then own
  else if t.isHtml n "option" then own || t.inDisabledGroup n
  else false

def canBeDisabled (n : NodeId) : Bool :=
  t.obeysFieldset n || t.isHtml n "optgroup" || t.isHtml n "option"

def isEnabled (n : NodeId) : Bool :=
  t.canBeDisabled n && !t.isDisabled n

/-- Whether a reader can change what the element holds. -/
def isReadWrite (n : NodeId) : Bool :=
  let writable := !t.hasAttribute n "readonly" && !t.isDisabled n
  if t.isHtml n "input" then (t.inputType n).allowsReadOnly && writable
  else if t.isHtml n "textarea" then writable
  else t.isEditable n

/-- Whether an empty control shows what is to be entered. -/
def isPlaceholderShown (n : NodeId) : Bool :=
  (t.isHtml n "textarea" || t.isInput n InputType.allowsPlaceholder)
    && t.hasAttribute n "placeholder" && (t.controlValue n).isEmpty

end Selectors.TreeView

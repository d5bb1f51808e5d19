import Selectors.Control.Disabled
import Selectors.Control.Form
import Selectors.Control.Moment

/-!
# Candidates and their ranges

Only some controls are asked whether what they hold is valid: those that a user can change. Of
these, some have limits for their value.

* `TreeView.isCandidate` says which controls are asked.
* `TreeView.inRange?` compares a value with its limits; it is undecided where there are none.
-/

namespace Selectors

namespace InputType

/-- The types whose values have an order. -/
def hasRange : InputType → Bool
  | number | range | date | month | week | time | datetimeLocal => true
  | _ => false

/-- The types that are never asked. -/
def isBarred : InputType → Bool
  | hidden | reset | button => true
  | _ => false

end InputType

namespace TreeView

variable (t : TreeView)

/-- Whether an element is a control of a kind that can be asked. -/
def canBeCandidate (n : NodeId) : Bool :=
  if t.isHtml n "input" then
    !(t.inputType n).isBarred
      && !((t.inputType n).allowsReadOnly && t.hasAttribute n "readonly")
  else if t.isHtml n "textarea" then !t.hasAttribute n "readonly"
  else t.isHtml n "select" || (t.isHtml n "button" && t.isSubmitButton n)

/-- Whether a control is asked: it is not disabled and offers no mere suggestions. -/
def isCandidate (n : NodeId) : Bool :=
  t.canBeCandidate n && !t.isDisabled n && !(t.ancestors n).any fun a => t.isHtml a "datalist"

/-- A limit of an input element, if its attribute holds one. -/
def limit? (n : NodeId) (name : String) : Option Float :=
  (t.attribute? n name).bind (Moment.key? (t.inputType n))

/-- Whether a value lies between its limits. A value that cannot be read does, and that of a range
always does. -/
def inRange? (n : NodeId) : Option Bool :=
  let kind := t.inputType n
  if !t.isHtml n "input" || !kind.hasRange || !t.isCandidate n then none
  else if kind = .range then some true
  else
    let low := t.limit? n "min"
    let high := t.limit? n "max"
    if low.isNone && high.isNone then none
    else
      match Moment.key? kind (t.controlValue n) with
      | none => some true
      | some value => some (!low.any (value < ·) && !high.any (· < value))

end TreeView

end Selectors

import Selectors.Control.Checked
import Selectors.Control.Email
import Selectors.Control.Range
import Selectors.Readers

/-!
# Validity of controls and forms

A control that is asked is valid when it holds what its attributes demand. A form or a group of
fields is valid when no control inside of it is invalid.

* `TreeView.required?` says whether a control has to be filled in; for some the question makes no
  sense.
* `TreeView.satisfies` is the check of one control, `TreeView.valid?` the state. Patterns and
  addresses are read by `readers`, and reading a pattern is a step of its own, given by `read`, so
  that who asks often may keep what was read.
* `TreeView.isValid?` is the state where every pattern is read anew.
-/

namespace Selectors.TreeView

variable (t : TreeView) (readers : Readers)

/-- Whether a control has to be filled in. -/
def required? (n : NodeId) : Option Bool :=
  if t.isInput n InputType.allowsRequired || t.isHtml n "select" || t.isHtml n "textarea" then
    some (t.hasAttribute n "required")
  else none

/-- A limit for the length of a value. -/
def lengthLimit? (n : NodeId) (name : String) : Option Nat :=
  (t.attribute? n name).bind (boundedNumber? (Nat.pow 2 64 - 1))

/-- Whether the value is longer or shorter than it may be. Only what a user has entered can be, and
nothing is never too short. -/
def hasWrongLength (n : NodeId) : Bool :=
  match (t.live n).value with
  | none => false
  | some value =>
    (t.lengthLimit? n "maxlength").any (· < value.length)
      || (t.lengthLimit? n "minlength").any fun low => 0 < value.length && value.length < low

/-- The value that an option stands for: its attribute, or the words of its text. -/
def optionValue (n : NodeId) : String :=
  (t.attribute? n "value").getD
    (" ".intercalate (Text.words (String.join ((t.descendants n).filterMap t.text))))

/-- The values that an input element holds; a list of addresses holds several. -/
def enteredValues (n : NodeId) : List String :=
  let value := t.controlValue n
  if t.isInput n (· == .email) && t.hasAttribute n "multiple" then
    (Text.pieces (· == ',') value.toList).map fun v => String.ofList (Text.trim v)
  else [value]

/-- Whether the values are of the form that the type asks for. -/
def hasForm (n : NodeId) : Bool :=
  match t.inputType n with
  | .email => (t.enteredValues n).all Email.isValid
  | .url => (readers.address (t.controlValue n)).isSome
  | _ => true

section Reading

variable {M : Type → Type} [Monad M] (read : String → M (Option PatternTest))

/-- Whether the values are what the pattern describes. A text that is no pattern demands nothing,
and neither does one whose test gives up. -/
def fitsPattern (n : NodeId) : M Bool :=
  match t.attribute? n "pattern" with
  | none => return true
  | some text =>
    if (t.inputType n).allowsPattern then
      return (← read text).all fun test => (t.enteredValues n).all fun v => (test v).getD true
    else return true

/-- Whether a text in a control is what its attributes demand. Nothing is demanded of no text,
except that there be some. -/
def acceptsText (n : NodeId) : M Bool :=
  if (t.controlValue n).isEmpty then return !t.hasAttribute n "required"
  else
    return t.hasForm readers n && (← t.fitsPattern read n) && !t.hasWrongLength n
      && t.inRange? n != some false

/-- Whether an input element holds what its attributes demand. Radio buttons demand it together. -/
def inputSatisfies (n : NodeId) : M Bool :=
  match t.inputType n with
  | .checkbox => return !t.hasAttribute n "required" || t.isChecked n
  | .radio =>
    let group := t.radioGroup n
    return !(group.any fun m => t.hasAttribute m "required") || group.any t.isChecked
  | _ => t.acceptsText readers read n

/-- Whether a control holds what its attributes demand. A list has to show an option that stands for
something. -/
def satisfies (n : NodeId) : M Bool :=
  if t.isHtml n "input" then t.inputSatisfies readers read n
  else if t.isHtml n "textarea" then
    return !(t.hasAttribute n "required" && (t.controlValue n).isEmpty) && !t.hasWrongLength n
  else if t.isHtml n "select" then
    return !t.hasAttribute n "required"
      || (t.optionsOf n).any fun o => t.isSelected o && !(t.optionValue o).isEmpty
  else return true

/-- Whether a control is asked and does not hold what its attributes demand. -/
def isInvalidControl (n : NodeId) : M Bool :=
  if t.isCandidate n then return !(← t.satisfies readers read n) else return false

/-- Whether an element is valid, if the question is asked of it. -/
def valid? (n : NodeId) : M (Option Bool) :=
  if t.isHtml n "form" || t.isHtml n "fieldset" then
    return some !(← (t.elementsBelow n).anyM (t.isInvalidControl readers read))
  else if t.isCandidate n then return some (← t.satisfies readers read n)
  else return none

end Reading

/-- Whether an element is valid, with every pattern read where it is needed. -/
def isValid? (n : NodeId) : Option Bool :=
  Id.run (t.valid? readers (pure ∘ readers.filling?) n)

end Selectors.TreeView

import Selectors.Cursor

/-!
# Values of form controls

A control's value is what the user has entered, or else what the document gives it: the text inside
a text area, the `value` attribute of any other control.

* `InputType` are the types of input elements; an unknown type is that of a line of text.
* `TreeView.controlValue` is the value.
-/

namespace Selectors

/-- The types of input elements. -/
inductive InputType where
  | hidden
  | text
  | search
  | tel
  | url
  | email
  | password
  | date
  | month
  | week
  | time
  | datetimeLocal
  | number
  | range
  | color
  | checkbox
  | radio
  | file
  | submit
  | image
  | reset
  | button
  deriving DecidableEq, Repr

namespace InputType

def keyword : InputType → String
  | hidden => "hidden"
  | text => "text"
  | search => "search"
  | tel => "tel"
  | url => "url"
  | email => "email"
  | password => "password"
  | date => "date"
  | month => "month"
  | week => "week"
  | time => "time"
  | datetimeLocal => "datetime-local"
  | number => "number"
  | range => "range"
  | color => "color"
  | checkbox => "checkbox"
  | radio => "radio"
  | file => "file"
  | submit => "submit"
  | image => "image"
  | reset => "reset"
  | button => "button"

def all : List InputType :=
  [hidden, text, search, tel, url, email, password, date, month, week, time, datetimeLocal, number,
    range, color, checkbox, radio, file, submit, image, reset, button]

theorem mem_all (k : InputType) : k ∈ all := by
  cases k <;> decide

/-- The type that a keyword names, in any case of its letters. -/
def ofKeyword? (word : String) : Option InputType :=
  let word := Text.lower word
  all.find? fun k => k.keyword == word

/-- The types whose text the reader can be kept from changing. -/
def allowsReadOnly : InputType → Bool
  | text | search | url | tel | email | password | date | month | week | time | datetimeLocal
  | number => true
  | _ => false

/-- The types whose value a pattern can restrict. -/
def allowsPattern : InputType → Bool
  | text | search | url | tel | email | password => true
  | _ => false

/-- The types that can show a placeholder. -/
def allowsPlaceholder : InputType → Bool
  | text | search | url | tel | email | password | number => true
  | _ => false

/-- The types that can be required. -/
def allowsRequired : InputType → Bool
  | hidden | range | color | submit | image | reset | button => false
  | _ => true

/-- The types that send the form. -/
def submits : InputType → Bool
  | submit | image => true
  | _ => false

/-- The types that are on or off. -/
def isCheckable : InputType → Bool
  | checkbox | radio => true
  | _ => false

/-- The types whose value says how text in it runs. The direction of an unknown type is decided by
its value too. -/
def hasText : InputType → Bool
  | checkbox | radio | file | image | number | range | color | date | month | week | time
  | datetimeLocal => false
  | _ => true

end InputType

namespace TreeView

variable (t : TreeView)

/-- The type of an input element. -/
def inputType (n : NodeId) : InputType :=
  ((t.attribute? n "type").bind InputType.ofKeyword?).getD .text

/-- Whether a node is an input element of a type that satisfies `p`. -/
def isInput (n : NodeId) (p : InputType → Bool) : Bool :=
  t.isHtml n "input" && p (t.inputType n)

/-- The text of the children that are text. -/
def childText (n : NodeId) : String :=
  String.join ((t.children n).filterMap t.text)

/-- The value of a form control. -/
def controlValue (n : NodeId) : String :=
  match (t.live n).value with
  | some value => value
  | none =>
    if t.isHtml n "textarea" then t.childText n else (t.attribute? n "value").getD ""

end TreeView

end Selectors

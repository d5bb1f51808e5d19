import Selectors.Compiled.Basic
import Selectors.Scope

/-!
# Names, namespaces and attributes

Type and attribute selectors ask for names. In HTML the case of names does not count, and neither
does the case of some attributes' values.

* `TreeView.spaceRule` says which namespaces a test accepts, and fails where a prefix stands for
  none.
* `TreeView.matchesType` and `TreeView.matchesAttribute` are the two tests.
* `AttributeOperator.holds` compares a value with the written one.
-/

namespace Selectors

/-- The namespaces that a test accepts. -/
inductive SpaceRule where
  | every
  | exactly (space : Option String)
  deriving DecidableEq, Repr

namespace SpaceRule

def accepts : SpaceRule → Option String → Bool
  | every, _ => true
  | exactly s, space => s == space

end SpaceRule

namespace AttributeOperator

/-- Whether a value is what the operator asks for. Words are never empty and hold no blank, and an
empty text is never looked for inside of a value. -/
def holds (op : AttributeOperator) (value written : String) : Bool :=
  let v := value.toList
  let w := written.toList
  match op with
  | equals => value == written
  | includes => (Text.words value).contains written
  | dashMatch => value == written || (Text.dropLead? w v).any fun rest => rest.head? == some '-'
  | beginsWith => !w.isEmpty && w.isPrefixOf v
  | endsWith => !w.isEmpty && w.isSuffixOf v
  | contains => !w.isEmpty && Text.occursIn w v

end AttributeOperator

/-- The attributes of HTML elements whose values are compared without regard to case. -/
def caselessAttributes : List String :=
  ["accept", "accept-charset", "align", "alink", "axis", "bgcolor", "charset", "checked", "clear",
    "codetype", "color", "compact", "declare", "defer", "dir", "direction", "disabled", "enctype",
    "face", "frame", "hreflang", "http-equiv", "lang", "language", "link", "media", "method",
    "multiple", "nohref", "noresize", "noshade", "nowrap", "readonly", "rel", "rev", "rules",
    "scope", "scrolling", "selected", "shape", "target", "text", "type", "valign", "valuetype",
    "vlink"]

namespace AttributeTest

/-- Whether case does not count in values: the flag decides, or else in HTML the attribute's name.
-/
def ignoresCase (test : AttributeTest) (html : Bool) : Bool :=
  match test.flag with
  | some .insensitive => true
  | some .sensitive => false
  | none => html && caselessAttributes.contains (Text.lower test.name)

/-- Whether a value is what the test asks for. -/
def acceptsValue (test : AttributeTest) (html : Bool) (value : String) : Bool :=
  match test.matcher with
  | none => true
  | some (op, written) =>
    if test.ignoresCase html then op.holds (Text.lower value) (Text.lower written)
    else op.holds value written

end AttributeTest

namespace TreeView

variable (t : TreeView)

/-- Whether an element is an HTML element of an HTML document, or of none. -/
def isHtmlInHtml (n : NodeId) : Bool :=
  t.space n == some Namespace.html && (t.ownerDocument n).all t.isHtmlDocument

/-- The namespaces that a test accepts at a node, given what one without a bar accepts. -/
def spaceRule (n : NodeId) (implied : SpaceRule) : NamespaceTest → Except SelectorError SpaceRule
  | .implied => .ok implied
  | .any => .ok .every
  | .absent => .ok (.exactly none)
  | .named p => (t.namespaceFor n p).map .exactly

/-- Whether an element has the local name. -/
def hasName (n : NodeId) (name : String) : Bool :=
  (t.localName n).any fun l =>
    if t.isHtmlInHtml n then Text.sameLetters l name else l == name

/-- Whether an element is of the type. -/
def matchesType (n : NodeId) (space : NamespaceTest) (name : Option String) :
    Except SelectorError Bool :=
  (t.spaceRule n .every space).map fun rule =>
    rule.accepts (t.space n) && name.all (t.hasName n)

/-- Whether an attribute has the local name. In HTML the case of a name in no namespace does not
count. -/
def attributeHasName (n : NodeId) (name : String) (a : Attribute) : Bool :=
  if t.isHtmlInHtml n && a.space.isNone then Text.sameLetters a.localName name
  else a.localName == name

/-- Whether some attribute of an element passes a test. -/
def matchesAttribute (n : NodeId) (test : AttributeTest) : Except SelectorError Bool :=
  (t.spaceRule n (.exactly none) test.space).map fun rule =>
    (t.attributes n).any fun a =>
      rule.accepts a.space && t.attributeHasName n test.name a
        && test.acceptsValue (t.isHtmlInHtml n) a.value

def hasId (n : NodeId) (id : String) : Bool :=
  t.attribute? n "id" == some id

def hasClass (n : NodeId) (name : String) : Bool :=
  (t.attribute? n "class").any fun value => (Text.words value).contains name

end TreeView

end Selectors

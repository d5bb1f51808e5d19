import Selectors.Text.Ascii

/-!
# Names of pseudo-classes

The names fall into families by how they are read: those that take a selector list, those that take
a formula, those that take words, and those that stand alone. Some are known and never evaluated.

* `PseudoClassName.ofText?` finds a name in any case of its letters.
* `PseudoClassName.requiresArguments` and `PseudoClassName.acceptsArguments` say where parentheses
  must stand and where they may.
-/

namespace Selectors

/-- The pseudo-classes that combine whole selector lists. -/
inductive Logical where
  /-- Some member matches. -/
  | is
  /-- Some member matches; it differs from `is` in weight only. -/
  | whereAny
  /-- No member matches. -/
  | not
  /-- Some element related to this one matches. -/
  | has
  deriving DecidableEq, Repr

/-- Which siblings are counted, and from which end. -/
inductive NthKind where
  | child
  | lastChild
  | ofType
  | lastOfType
  deriving DecidableEq, Repr

namespace NthKind

/-- Counted from the last sibling. -/
def fromEnd : NthKind → Bool
  | lastChild | lastOfType => true
  | child | ofType => false

/-- Counted among siblings of one type only. -/
def countsType : NthKind → Bool
  | ofType | lastOfType => true
  | child | lastChild => false

def keyword : NthKind → String
  | child => "child"
  | lastChild => "last-child"
  | ofType => "of-type"
  | lastOfType => "last-of-type"

def all : List NthKind :=
  [child, lastChild, ofType, lastOfType]

end NthKind

/-- The pseudo-classes that stand alone and ask for a state of the element. -/
inductive ElementState where
  | onlyChild
  | onlyOfType
  | root
  | empty
  | scope
  | defined
  | anyLink
  | link
  | visited
  | localLink
  | target
  | targetWithin
  | hover
  | active
  | focus
  | focusVisible
  | focusWithin
  | enabled
  | disabled
  | readOnly
  | readWrite
  | placeholderShown
  | byDefault
  | checked
  | indeterminate
  | valid
  | invalid
  | inRange
  | outOfRange
  | required
  | optional
  | opened
  | closed
  | modal
  | popoverOpen
  deriving DecidableEq, Repr

namespace ElementState

def keyword : ElementState → String
  | onlyChild => "only-child"
  | onlyOfType => "only-of-type"
  | root => "root"
  | empty => "empty"
  | scope => "scope"
  | defined => "defined"
  | anyLink => "any-link"
  | link => "link"
  | visited => "visited"
  | localLink => "local-link"
  | target => "target"
  | targetWithin => "target-within"
  | hover => "hover"
  | active => "active"
  | focus => "focus"
  | focusVisible => "focus-visible"
  | focusWithin => "focus-within"
  | enabled => "enabled"
  | disabled => "disabled"
  | readOnly => "read-only"
  | readWrite => "read-write"
  | placeholderShown => "placeholder-shown"
  | byDefault => "default"
  | checked => "checked"
  | indeterminate => "indeterminate"
  | valid => "valid"
  | invalid => "invalid"
  | inRange => "in-range"
  | outOfRange => "out-of-range"
  | required => "required"
  | optional => "optional"
  | opened => "open"
  | closed => "closed"
  | modal => "modal"
  | popoverOpen => "popover-open"

def all : List ElementState :=
  [onlyChild, onlyOfType, root, empty, scope, defined, anyLink, link, visited, localLink, target,
    targetWithin, hover, active, focus, focusVisible, focusWithin, enabled, disabled, readOnly,
    readWrite, placeholderShown, byDefault, checked, indeterminate, valid, invalid, inRange,
    outOfRange, required, optional, opened, closed, modal, popoverOpen]

theorem mem_all (s : ElementState) : s ∈ all := by
  cases s <;> decide

end ElementState

/-- The pseudo-classes that are known and never evaluated. -/
inductive UnevaluatedState where
  | autofill
  | blank
  | buffering
  | current
  | fullscreen
  | future
  | hasSlotted
  | muted
  | past
  | paused
  | pictureInPicture
  | playing
  | seeking
  | stalled
  | userInvalid
  | userValid
  | volumeLocked
  | vendorAutofill
  deriving DecidableEq, Repr

namespace UnevaluatedState

def keyword : UnevaluatedState → String
  | autofill => "autofill"
  | blank => "blank"
  | buffering => "buffering"
  | current => "current"
  | fullscreen => "fullscreen"
  | future => "future"
  | hasSlotted => "has-slotted"
  | muted => "muted"
  | past => "past"
  | paused => "paused"
  | pictureInPicture => "picture-in-picture"
  | playing => "playing"
  | seeking => "seeking"
  | stalled => "stalled"
  | userInvalid => "user-invalid"
  | userValid => "user-valid"
  | volumeLocked => "volume-locked"
  | vendorAutofill => "-webkit-autofill"

def all : List UnevaluatedState :=
  [autofill, blank, buffering, current, fullscreen, future, hasSlotted, muted, past, paused,
    pictureInPicture, playing, seeking, stalled, userInvalid, userValid, volumeLocked,
    vendorAutofill]

theorem mem_all (s : UnevaluatedState) : s ∈ all := by
  cases s <;> decide

end UnevaluatedState

/-- The names of pseudo-classes. -/
inductive PseudoClassName where
  | logical (op : Logical)
  /-- The counters that take a formula. -/
  | nth (kind : NthKind)
  /-- The counters that stand for the first position. -/
  | edge (kind : NthKind)
  | host
  | hostContext
  | dir
  | lang
  | state (s : ElementState)
  | unevaluated (s : UnevaluatedState)
  deriving DecidableEq, Repr

namespace PseudoClassName

/-- The name in small letters. -/
def keyword : PseudoClassName → String
  | logical .is => "is"
  | logical .whereAny => "where"
  | logical .not => "not"
  | logical .has => "has"
  | nth k => "nth-" ++ k.keyword
  | edge .child => "first-child"
  | edge .lastChild => "last-child"
  | edge .ofType => "first-of-type"
  | edge .lastOfType => "last-of-type"
  | host => "host"
  | hostContext => "host-context"
  | dir => "dir"
  | lang => "lang"
  | state s => s.keyword
  | unevaluated s => s.keyword

/-- The name that is shown: of two spellings the longer one. -/
def display : PseudoClassName → String
  | state .anyLink => "-webkit-any-link"
  | n => n.keyword

/-- All names. -/
def all : List PseudoClassName :=
  [Logical.is, .whereAny, .not, .has].map logical ++ NthKind.all.map nth ++ NthKind.all.map edge
    ++ [host, hostContext, dir, lang] ++ ElementState.all.map state
    ++ UnevaluatedState.all.map unevaluated

theorem mem_all (n : PseudoClassName) : n ∈ all := by
  cases n with
  | logical op => cases op <;> simp [all]
  | nth k => cases k <;> simp [all, NthKind.all]
  | edge k => cases k <;> simp [all, NthKind.all]
  | state s => simp [all, ElementState.mem_all s]
  | unevaluated s => simp [all, UnevaluatedState.mem_all s]
  | _ => simp [all]

/-- The name that a text spells, in any case of its letters. -/
def ofText? (text : String) : Option PseudoClassName :=
  let text := Text.lower text
  all.find? fun n => n.keyword == text || n.display == text

/-- Known but never evaluated. -/
def isUnevaluated : PseudoClassName → Bool
  | unevaluated _ => true
  | _ => false

/-- Names that cannot stand without parentheses. -/
def requiresArguments : PseudoClassName → Bool
  | logical _ | nth _ | hostContext | dir | lang => true
  | _ => false

/-- Names that may stand with parentheses. -/
def acceptsArguments : PseudoClassName → Bool
  | host | unevaluated .current => true
  | n => n.requiresArguments

/-- Whether the name may stand as it does, with or without parentheses. -/
def allows (n : PseudoClassName) (parentheses : Bool) : Bool :=
  if parentheses then n.acceptsArguments else !n.requiresArguments

end PseudoClassName

end Selectors

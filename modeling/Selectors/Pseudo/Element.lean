import Selectors.Text.Ascii

/-!
# Names of pseudo-elements

A tree of elements holds no pseudo-element, so all but `slotted` only have to be known by name.

* `PseudoElementName.ofText?` finds a name in any case of its letters.
-/

namespace Selectors

/-- The names of pseudo-elements. -/
inductive PseudoElementName where
  | after
  | backdrop
  | before
  | cue
  | cueRegion
  | detailsContent
  | fileSelectorButton
  | firstLetter
  | firstLine
  | grammarError
  | highlight
  | marker
  | part
  | placeholder
  | selection
  | slotted
  | spellingError
  | targetText
  | viewTransition
  | viewTransitionGroup
  | viewTransitionImagePair
  | viewTransitionNew
  | viewTransitionOld
  deriving DecidableEq, Repr

namespace PseudoElementName

/-- The name in small letters. -/
def keyword : PseudoElementName → String
  | after => "after"
  | backdrop => "backdrop"
  | before => "before"
  | cue => "cue"
  | cueRegion => "cue-region"
  | detailsContent => "details-content"
  | fileSelectorButton => "file-selector-button"
  | firstLetter => "first-letter"
  | firstLine => "first-line"
  | grammarError => "grammar-error"
  | highlight => "highlight"
  | marker => "marker"
  | part => "part"
  | placeholder => "placeholder"
  | selection => "selection"
  | slotted => "slotted"
  | spellingError => "spelling-error"
  | targetText => "target-text"
  | viewTransition => "view-transition"
  | viewTransitionGroup => "view-transition-group"
  | viewTransitionImagePair => "view-transition-image-pair"
  | viewTransitionNew => "view-transition-new"
  | viewTransitionOld => "view-transition-old"

/-- All names. -/
def all : List PseudoElementName :=
  [after, backdrop, before, cue, cueRegion, detailsContent, fileSelectorButton, firstLetter,
    firstLine, grammarError, highlight, marker, part, placeholder, selection, slotted,
    spellingError, targetText, viewTransition, viewTransitionGroup, viewTransitionImagePair,
    viewTransitionNew, viewTransitionOld]

theorem mem_all (n : PseudoElementName) : n ∈ all := by
  cases n <;> decide

/-- The name that a text spells, in any case of its letters. -/
def ofText? (text : String) : Option PseudoElementName :=
  let text := Text.lower text
  all.find? fun n => n.keyword == text

/-- Names that cannot stand without parentheses. -/
def requiresArguments : PseudoElementName → Bool
  | highlight | part | slotted | viewTransitionGroup | viewTransitionImagePair | viewTransitionNew
  | viewTransitionOld => true
  | _ => false

/-- Names that may stand with parentheses. -/
def acceptsArguments : PseudoElementName → Bool
  | cue | cueRegion => true
  | n => n.requiresArguments

/-- Whether the name may stand as it does, with or without parentheses. -/
def allows (n : PseudoElementName) (parentheses : Bool) : Bool :=
  if parentheses then n.acceptsArguments else !n.requiresArguments

end PseudoElementName

end Selectors

/-!
# Causes of failure

A selector fails because its tokens cannot stand in one, because its grammar is broken, because a
well-formed part has no meaning, or because that meaning cannot be evaluated.

* `SelectorError` names the cause together with the text it blames.
* `SelectorError.kind` sorts the causes, and `SelectorError.name` is the exception a document
  reports: only what cannot be evaluated is "not supported".
-/

namespace Selectors

/-- Why a selector was refused. -/
inductive SelectorError where
  /-- Some token of the text can stand in no selector. -/
  | invalidToken (selector : String)
  /-- A part of the text does not follow the grammar. -/
  | invalidSelector (selector : String)
  /-- A part follows the grammar in a place where it may not stand. -/
  | invalidConstruct (selector : String)
  | unknownPseudoClass (name : String)
  | unknownPseudoElement (name : String)
  /-- No declaration in scope binds the namespace written before the bar. -/
  | undeclaredNamespace (name : String)
  | unsupportedPseudoClass (name : String)
  | unsupportedPseudoElement (name : String)
  | unsupportedCombinator (combinator : String)
  deriving DecidableEq, Repr

/-- The three sorts of failure. -/
inductive ErrorKind where
  | grammar
  | semantic
  | notSupported
  deriving DecidableEq, Repr

namespace SelectorError

/-- Tokens and grammar are one sort, meaning the second, evaluation the third. -/
def kind : SelectorError → ErrorKind
  | invalidToken _ | invalidSelector _ => .grammar
  | invalidConstruct _ | unknownPseudoClass _ | unknownPseudoElement _ | undeclaredNamespace _ =>
    .semantic
  | unsupportedPseudoClass _ | unsupportedPseudoElement _ | unsupportedCombinator _ => .notSupported

/-- The name of the exception that a document raises for the failure. -/
def name (e : SelectorError) : String :=
  match e.kind with
  | .grammar | .semantic => "SyntaxError"
  | .notSupported => "NotSupportedError"

/-- The sentence that reports the failure. -/
def message : SelectorError → String
  | invalidToken s | invalidSelector s | invalidConstruct s => "Invalid selector " ++ s
  | unknownPseudoClass n => "Unknown pseudo-class :" ++ n
  | unknownPseudoElement n => "Unknown pseudo-element ::" ++ n
  | undeclaredNamespace n => "Undeclared namespace " ++ n
  | unsupportedPseudoClass n => "Unsupported pseudo-class :" ++ n
  | unsupportedPseudoElement n => "Unsupported pseudo-element ::" ++ n
  | unsupportedCombinator c => "Unsupported combinator " ++ c

end SelectorError

end Selectors

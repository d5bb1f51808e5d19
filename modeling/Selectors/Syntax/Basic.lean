import Selectors.Token.Balance

/-!
# The grammar tree of a selector

A complex selector is compounds joined by combinators, and a compound is a row of simple selectors.
The arguments of functional pseudo-classes stay tokens here, because only the name says how they are
read.

* `Component` is one simple selector, `ComplexNode` a complex selector with its text.
* `AttributeTest` and `NamespaceTest` say what is asked of attributes and of namespaces.
-/

namespace Selectors

/-- What is written before the bar of a qualified name. -/
inductive NamespaceTest where
  /-- No bar is written. -/
  | implied
  /-- `*|`: every namespace, and none. -/
  | any
  /-- `|`: no namespace. -/
  | absent
  /-- `p|`: the namespace that `p` stands for. -/
  | named (p : String)
  deriving DecidableEq, Repr

/-- How an attribute's value is compared with the written one. -/
inductive AttributeOperator where
  /-- `=`: they are equal. -/
  | equals
  /-- `~=`: the value is a list of words, and the written one is among them. -/
  | includes
  /-- `|=`: they are equal, or the written one and a hyphen begin the value. -/
  | dashMatch
  /-- `^=`: the value begins so. -/
  | beginsWith
  /-- `$=`: the value ends so. -/
  | endsWith
  /-- `*=`: it occurs in the value. -/
  | contains
  deriving DecidableEq, Repr

/-- The letter after a value that fixes how case is treated. -/
inductive CaseFlag where
  | insensitive
  | sensitive
  deriving DecidableEq, Repr

/-- What stands between square brackets. -/
structure AttributeTest where
  space : NamespaceTest
  name : String
  /-- The comparison, absent when the attribute only has to be there. -/
  matcher : Option (AttributeOperator × String)
  flag : Option CaseFlag
  deriving DecidableEq, Repr

/-- A combinator as it is written. -/
inductive CombinatorMark where
  | descendant
  | child
  | nextSibling
  | subsequentSibling
  /-- `||`, which no matching knows. -/
  | column
  deriving DecidableEq, Repr

/-- The tokens between a function's parentheses. -/
structure Arguments where
  tokens : List Token
  text : String
  deriving DecidableEq, Repr

/-- One element of a compound. -/
inductive Component where
  /-- A type selector; without a name it is the universal one. -/
  | type (space : NamespaceTest) (name : Option String)
  | id (name : String)
  | class (name : String)
  | attribute (test : AttributeTest)
  /-- A pseudo-class with its arguments, if it has parentheses, and its text from the colon on. -/
  | pseudoClass (name : String) (args : Option Arguments) (text : String)
  /-- A pseudo-element; `oneColon` when it is written with one colon. -/
  | pseudoElement (name : String) (args : Option Arguments) (oneColon : Bool) (text : String)
  /-- The ampersand. -/
  | nesting
  deriving DecidableEq, Repr

namespace Component

def isPseudoElement : Component → Bool
  | pseudoElement .. => true
  | _ => false

/-- What may still follow a pseudo-element in its compound. -/
def isPseudo : Component → Bool
  | pseudoClass .. | pseudoElement .. => true
  | _ => false

end Component

/-- One complex selector and the text it was read from. A relative one may begin with a
combinator. -/
structure ComplexNode where
  leading : Option CombinatorMark
  first : List Component
  joined : List (CombinatorMark × List Component)
  text : String
  deriving DecidableEq, Repr

end Selectors

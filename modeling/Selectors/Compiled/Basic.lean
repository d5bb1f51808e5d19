import Selectors.AnB
import Selectors.Pseudo.Class
import Selectors.Syntax.Basic

/-!
# Compiled selectors

A compiled selector keeps its lists, complex selectors and compounds in three stores, and each
refers to the others by place. Nested lists, as in `:is()`, are stored before the list around them,
so a place is also a measure of nesting.

* `Arena` holds the stores; `Arena.list`, `Arena.complex` and `Arena.compound` look a place up.
* `Compound` records what decides the order of its tests: cheap ones first, and those that ask for
  related elements last.
* `ComplexSelector.compounds` and `ComplexSelector.combinators` are the two rows of a complex
  selector; the first is always one longer.
-/

namespace Selectors

/-- The place of a list in its arena. -/
structure ListId where
  index : Nat
  deriving DecidableEq, Repr, Hashable

/-- The place of a complex selector in its arena. -/
structure ComplexId where
  index : Nat
  deriving DecidableEq, Repr

/-- The place of a compound in its arena. -/
structure CompoundId where
  index : Nat
  deriving DecidableEq, Repr

/-- How two neighbouring compounds of a complex selector are related. -/
inductive Combinator where
  | descendant
  | child
  | nextSibling
  | subsequentSibling
  /-- The right element is assigned to the left one, which is a slot. -/
  | slot
  deriving DecidableEq, Repr

/-- A pseudo-class with its arguments read. -/
inductive PseudoClass where
  | logical (op : Logical) (list : ListId)
  /-- A position among the siblings that `filter` picks. -/
  | nth (kind : NthKind) (formula : AnB) (filter : Option ListId)
  | host (list : Option ListId)
  | hostContext (list : ListId)
  | dir (word : String)
  | lang (ranges : List String)
  | state (s : ElementState)
  /-- Known and never evaluated. -/
  | unsupported (name : String)
  deriving DecidableEq, Repr

namespace PseudoClass

/-- The list among the arguments. -/
def nestedList? : PseudoClass → Option ListId
  | logical _ l | hostContext l => some l
  | host l => l
  | nth _ _ l => l
  | _ => none

end PseudoClass

/-- A test of one element. -/
inductive SimpleSelector where
  /-- Its type; every type where no name is given. -/
  | type (space : NamespaceTest) (name : Option String)
  | id (name : String)
  | class (name : String)
  | attribute (test : AttributeTest)
  | pseudo (p : PseudoClass)
  deriving DecidableEq, Repr

/-- The tests that one element has to pass. -/
structure Compound where
  simples : List SimpleSelector
  /-- A pseudo-element, which no tree holds; a compound that has one never matches. -/
  pseudoElement : Option String
  /-- Whether a test asks for related elements somewhere inside a nested list. -/
  hasNestedHas : Bool
  /-- Whether a test asks for related elements, itself or inside. -/
  containsHas : Bool
  /-- The places of the tests in the order in which they are made. -/
  matchOrder : List Nat
  deriving DecidableEq, Repr

namespace Compound

/-- The tests in the order in which they are made. -/
def inOrder (c : Compound) : List SimpleSelector :=
  c.matchOrder.filterMap fun i => c.simples[i]?

end Compound

/-- How the elements that match are looked for. -/
inductive Direction where
  /-- Each candidate is tested, and the test goes from right to left. -/
  | ascend
  /-- The elements with the first compound's id are found, and the rest is followed from them. -/
  | descend
  deriving DecidableEq, Repr

/-- Compounds joined by combinators. -/
structure ComplexSelector where
  /-- How the first compound is related to the anchor; relative selectors only. -/
  leading : Option Combinator
  first : CompoundId
  joined : List (Combinator × CompoundId)
  text : String
  direction : Direction
  deriving DecidableEq, Repr

namespace ComplexSelector

/-- The compounds from left to right. -/
def compounds (c : ComplexSelector) : List CompoundId :=
  c.first :: c.joined.map Prod.snd

/-- The combinators from left to right. -/
def combinators (c : ComplexSelector) : List Combinator :=
  c.joined.map Prod.fst

/-- The compound that the matched element itself passes. -/
def subject (c : ComplexSelector) : CompoundId :=
  match c.joined.getLast? with
  | some (_, last) => last
  | none => c.first

/-- The way from the subject to the left: each combinator with the compound before it. -/
def leftward (c : ComplexSelector) : List (Combinator × CompoundId) :=
  (c.combinators.zip c.compounds).reverse

theorem length_compounds (c : ComplexSelector) :
    c.compounds.length = c.combinators.length + 1 := by
  simp [compounds, combinators]

end ComplexSelector

/-- A selector list: it matches what some member matches. -/
structure SelectorList where
  complexes : List ComplexId
  /-- Whether some member asks for related elements. -/
  containsHas : Bool
  deriving DecidableEq, Repr

/-- The stores of one compiled selector. -/
structure Arena where
  lists : Array SelectorList := #[]
  complexes : Array ComplexSelector := #[]
  compounds : Array Compound := #[]
  deriving DecidableEq, Repr

namespace Arena

/-- The list at a place; the empty list where nothing is stored. -/
def list (a : Arena) (id : ListId) : SelectorList :=
  a.lists[id.index]?.getD ⟨[], false⟩

/-- The compound at a place; one without tests where nothing is stored. -/
def compound (a : Arena) (id : CompoundId) : Compound :=
  a.compounds[id.index]?.getD ⟨[], none, false, false, []⟩

/-- The complex selector at a place; a lone compound where nothing is stored. -/
def complex (a : Arena) (id : ComplexId) : ComplexSelector :=
  a.complexes[id.index]?.getD ⟨none, ⟨0⟩, [], "", .ascend⟩

/-- The number of lists stored so far, those of members that were dropped among them. -/
def listCount (a : Arena) : Nat :=
  a.lists.size

/-- Whether a test asks for related elements, itself or inside a nested list. -/
def bearsHas (a : Arena) : SimpleSelector → Bool
  | .pseudo (.logical .has _) => true
  | .pseudo p => p.nestedList?.any fun l => (a.list l).containsHas
  | _ => false

/-- Whether a complex selector has a compound that asks for related elements. -/
def complexBearsHas (a : Arena) (id : ComplexId) : Bool :=
  (a.complex id).compounds.any fun c => (a.compound c).containsHas

end Arena

/-- A selector ready to be matched. -/
structure CompiledSelector where
  source : String
  arena : Arena
  root : ListId
  deriving DecidableEq, Repr

namespace CompiledSelector

/-- Whether any part of the selector asks for related elements. -/
def containsHas (s : CompiledSelector) : Bool :=
  (s.arena.list s.root).containsHas

end CompiledSelector

end Selectors

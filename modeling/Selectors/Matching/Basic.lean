import Selectors.Direction
import Selectors.Language
import Selectors.Matching.Attribute
import Selectors.Matching.Relation
import Selectors.Matching.State
import Selectors.Warning

/-!
# Matching

A complex selector is matched from right to left: the candidate has to pass the last compound, and
from it each combinator leads to nodes that may pass the compound before. Arguments that are lists
are matched in the same way, one level of nesting further down, and a list never holds one that was
stored after it.

* `Matching` is a computation that may fail, that warns, and that remembers what `:has()` answered
  and which patterns it read.
* `Nested` is how lists are matched that lie deeper, and `Matcher.nested` builds it level by level.
* `Matcher.matchChain` is the walk to the left, `Matcher.matchRelative` the search that `:has()`
  makes.
* `Matcher.matchesList`, `Matcher.matchesComplex` and `Matcher.matchesCompound` match from outside.
-/

namespace Selectors

/-- The question whether `:has()` with a list holds of a node. -/
abbrev HasQuestion := NodeId × ListId

/-- What matching keeps from one node to the next. -/
structure MatchMemory where
  /-- What was told, each once. -/
  warnings : List Warning := []
  /-- What `:has()` answered. -/
  answers : List (HasQuestion × Bool) := []
  /-- What is being answered, the innermost question first. -/
  asking : List HasQuestion := []
  /-- The tests of the patterns read, by their texts; none for a text that is no pattern. -/
  patterns : List (String × Option PatternTest) := []

/-- A computation of the matcher. What it keeps it keeps also where it fails. -/
abbrev Matching := ExceptT SelectorError (StateM MatchMemory)

/-- The shadow root for which `:host` stands, if there is one. -/
abbrev ShadowScope := Option NodeId

/-- How lists are matched that lie deeper in a selector. -/
structure Nested where
  /-- Whether some member of a list matches a node. -/
  list : ShadowScope → ListId → NodeId → Matching Bool
  /-- Whether some member of a list matches a node that is related to the anchor. -/
  has : ShadowScope → ListId → NodeId → Matching Bool

/-- A compiled selector over a tree. -/
structure Matcher where
  tree : TreeView
  arena : Arena
  root : ListId
  /-- The node that `:scope` stands for; the root of the document where there is none. -/
  scope : Option NodeId := none
  shadow : ShadowScope := none
  /-- How texts in other languages are read. -/
  readers : Readers := {}
  /-- Whether what is known and not evaluated is a failure. -/
  strict : Bool := false
  /-- Whether answers of `:has()` are remembered, and patterns that were read. -/
  remembers : Bool := true

namespace Matcher

variable (m : Matcher)

/-- Meets something known that is not evaluated: a failure in a strict call, and else told once and
no match. -/
def unsupported (e : SelectorError) : Matching Bool := do
  if m.strict then
    throw e
  let w : Warning := { component := "Selector", message := e.message }
  modify fun s => if s.warnings.contains w then s else { s with warnings := s.warnings ++ [w] }
  return false

/-- Forgets the question asked last. -/
def closeQuestion : Matching Unit :=
  modify fun s => { s with asking := s.asking.drop 1 }

/-- Answers a question from memory or else by `answer`. A question that is being answered already
has no match. -/
def answerOnce (q : HasQuestion) (answer : Matching Bool) : Matching Bool := do
  if !m.remembers then
    return ← answer
  let s ← get
  match s.answers.lookup q with
  | some b => return b
  | none =>
    if s.asking.contains q then
      return false
    set { s with asking := q :: s.asking }
    let b ← tryCatch answer fun e => do
      closeQuestion
      throw e
    closeQuestion
    modify fun s => { s with answers := (q, b) :: s.answers }
    return b

/-- Reads a pattern, from memory if it was read before. -/
def readPattern (text : String) : Matching (Option PatternTest) := do
  if !m.remembers then
    return m.readers.filling? text
  match (← get).patterns.lookup text with
  | some p => return p
  | none =>
    let p := m.readers.filling? text
    modify fun s => { s with patterns := (text, p) :: s.patterns }
    return p

/-! ### Compounds -/

/-- Whether an element is in a state. Whether it is valid may take reading patterns. -/
def matchState (n : NodeId) : ElementState → Matching Bool
  | .valid => return (← m.tree.valid? m.readers m.readPattern n) == some true
  | .invalid => return (← m.tree.valid? m.readers m.readPattern n) == some false
  | s => return m.tree.inState m.readers m.scope n s

/-- Whether an element stands at a position that the formula picks, counted among its siblings. With
a filter only siblings that match it are counted, and the element has to match it itself. -/
def matchNth (sub : Nested) (shadow : ShadowScope) (kind : NthKind) (formula : AnB)
    (filter : Option ListId) (n : NodeId) : Matching Bool := do
  if let some l := filter then
    if !(← sub.list shadow l n) then
      return false
  let t := m.tree
  let siblings := if kind.fromEnd then t.followingSiblings n else t.precedingSiblings n
  let counted ← (siblings.filter t.isElement).filterM fun s =>
    if kind.countsType then return t.sameType s n
    else
      match filter with
      | some l => sub.list shadow l s
      | none => return true
  return formula.includes (counted.length + 1)

def matchPseudo (sub : Nested) (shadow : ShadowScope) (n : NodeId) :
    PseudoClass → Matching Bool
  | .logical .is l | .logical .whereAny l => sub.list shadow l n
  | .logical .not l => do return !(← sub.list shadow l n)
  | .logical .has l => sub.has shadow l n
  | .nth kind formula filter => m.matchNth sub shadow kind formula filter n
  | .host _ | .hostContext _ => return false
  | .dir word => return (m.tree.directionBy m.readers.strong n).keyword == word
  | .lang ranges =>
    return (m.tree.languageOf n).any fun tag => ranges.any fun range => Language.includes range tag
  | .state s => m.matchState n s
  | .unsupported name => m.unsupported (.unsupportedPseudoClass name)

def matchSimple (sub : Nested) (shadow : ShadowScope) (n : NodeId) :
    SimpleSelector → Matching Bool
  | .type space name => liftExcept (m.tree.matchesType n space name)
  | .id name => return m.tree.hasId n name
  | .class name => return m.tree.hasClass n name
  | .attribute test => liftExcept (m.tree.matchesAttribute n test)
  | .pseudo p => m.matchPseudo sub shadow n p
where
  liftExcept (r : Except SelectorError Bool) : Matching Bool :=
    match r with
    | .ok b => return b
    | .error e => throw e

/-- Whether a list matches the host or some element around it. -/
def matchHostContext (sub : Nested) (shadow : ShadowScope) (l : ListId) (host : NodeId) :
    Matching Bool :=
  ((m.tree.hostingAncestors host).filter m.tree.isElement).anyM (sub.list shadow l)

/-- One test of a node that is no element. It passes few: `isHost` says that it stands for its host,
and `isScope` that it is what `:scope` stands for. -/
def matchFeature (sub : Nested) (shadow : ShadowScope) (isHost isScope : Bool) (n : NodeId) :
    SimpleSelector → Matching Bool
  | .pseudo (.state .scope) => return isScope
  | .pseudo (.host none) => return isHost
  | .pseudo (.host (some l)) =>
    match m.tree.shadowHost n with
    | some e => if isHost then sub.list shadow l e else return false
    | none => return false
  | .pseudo (.hostContext l) =>
    match m.tree.shadowHost n with
    | some e => if isHost then m.matchHostContext sub shadow l e else return false
    | none => return false
  | .pseudo (.logical .is l) | .pseudo (.logical .whereAny l) => sub.list shadow l n
  | _ => return false

/-- A compound against a node that is no element. A shadow root stands for its host inside of its
own tree, and a node that is no document may be what `:scope` stands for. -/
def matchFeatureless (sub : Nested) (shadow : ShadowScope) (c : Compound) (n : NodeId) :
    Matching Bool :=
  let kind := m.tree.kind n
  let isHost := kind == .shadowRoot && shadow == some n
  let isScope := kind != .document && m.scope == some n
  if !(isHost || isScope) || c.simples.isEmpty then return false
  else c.inOrder.allM (m.matchFeature sub shadow isHost isScope n)

/-- Whether a node passes all tests of a compound. -/
def matchCompound (sub : Nested) (shadow : ShadowScope) (id : CompoundId) (n : NodeId) :
    Matching Bool :=
  let c := m.arena.compound id
  match c.pseudoElement with
  | some name => m.unsupported (.unsupportedPseudoElement name)
  | none =>
    if m.tree.isElement n then c.inOrder.allM (m.matchSimple sub shadow n)
    else m.matchFeatureless sub shadow c n

/-! ### Complex selectors -/

/-- The shadow scope on the left of a combinator. A slot is matched from inside its own tree. -/
def scopeAcross (shadow : ShadowScope) (left : NodeId) : Combinator → ShadowScope
  | .slot => m.tree.shadowScope left
  | _ => shadow

/-- Matches a compound and, to the left of it, what is given with the combinators before. The
leftmost node has to be related to the anchor, if there is one. -/
def matchChain (sub : Nested) (anchor : Option (Combinator × NodeId)) :
    List (Combinator × CompoundId) → ShadowScope → CompoundId → NodeId → Matching Bool
  | [], shadow, c, n => do
    if !(← m.matchCompound sub shadow c n) then
      return false
    return anchor.all fun (q, a) => m.tree.related a n q
  | (q, d) :: more, shadow, c, n => do
    if !(← m.matchCompound sub shadow c n) then
      return false
    (m.tree.leftOf n q).anyM fun left =>
      matchChain sub anchor more (m.scopeAcross shadow left q) d left

/-- Whether a complex selector matches a node, related to the anchor if there is one. -/
def matchComplex (sub : Nested) (anchor : Option (Combinator × NodeId)) (shadow : ShadowScope)
    (id : ComplexId) (n : NodeId) : Matching Bool :=
  let c := m.arena.complex id
  m.matchChain sub anchor c.leftward shadow c.subject n

/-- Whether a combinator leads to the inside of elements. -/
def leadsInside : Combinator → Bool
  | .descendant | .child => true
  | _ => false

/-- The elements that a relative selector can lead to from an anchor. What follows the siblings of
the anchor may lie inside of them. -/
def candidates (c : ComplexSelector) (anchor : NodeId) : List NodeId :=
  let t := m.tree
  match c.leading.getD .descendant with
  | .descendant | .child | .slot => t.elementsBelow anchor
  | .nextSibling | .subsequentSibling =>
    ((t.followingSiblings anchor).filter t.isElement).flatMap fun s =>
      s :: if c.combinators.any leadsInside then t.elementsBelow s else []

/-- Whether a relative selector leads from the anchor to some element. -/
def matchRelative (sub : Nested) (shadow : ShadowScope) (anchor : NodeId) (id : ComplexId) :
    Matching Bool :=
  let c := m.arena.complex id
  (m.candidates c anchor).anyM
    (m.matchComplex sub (some (c.leading.getD .descendant, anchor)) shadow id)

/-- How lists are matched that lie at most `depth` deep. -/
def nested : Nat → Nested
  | 0 => { list := fun _ _ _ => return false, has := fun _ _ _ => return false }
  | depth + 1 =>
    let sub := nested depth
    { list := fun shadow l n =>
        (m.arena.list l).complexes.anyM fun c => m.matchComplex sub none shadow c n
      has := fun shadow l anchor =>
        m.answerOnce (anchor, l)
          ((m.arena.list l).complexes.anyM (m.matchRelative sub shadow anchor)) }

/-- How the lists in a selector are matched: no list lies deeper than there are lists. -/
def inside : Nested :=
  m.nested m.arena.listCount

/-! ### From outside -/

def matchesCompound (id : CompoundId) (n : NodeId) : Matching Bool :=
  m.matchCompound m.inside m.shadow id n

def matchesComplex (id : ComplexId) (n : NodeId) : Matching Bool :=
  m.matchComplex m.inside none m.shadow id n

/-- Whether the selector matches a node. -/
def matchesNode (n : NodeId) : Matching Bool :=
  (m.arena.list m.root).complexes.anyM fun c => m.matchesComplex c n

end Matcher

end Selectors

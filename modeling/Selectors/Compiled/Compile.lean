import Selectors.Compiled.Basic
import Selectors.Pseudo.Element
import Selectors.Syntax.Parser

/-!
# Compiling

The grammar tree of a selector is given meaning: names are looked up, arguments are read as lists,
formulas or words, and every part is stored in the arena. What an `:is()` holds is forgiven: a
member that fails is left out, though what it stored before it failed stays stored.

* `Compile` keeps the arena when a part fails, which is what forgiving needs.
* The functions of one level take `nested`, which compiles the lists inside; `Compile.list` ties the
  knot. An argument has fewer tokens than the list it stands in, so as many levels as there are
  tokens are enough.
* `compile` reads a whole selector text.
-/

namespace Selectors

/-- A step of compiling: it stores parts in the arena, and keeps them stored also when it fails. -/
abbrev Compile := ExceptT SelectorError (StateM Arena)

/-- Where a part stands. -/
structure CompileContext where
  source : List Char
  /-- Inside the argument of `:has()`. -/
  inHas : Bool := false
  /-- Inside any argument. -/
  nested : Bool := false

/-- How an argument is read as a list. -/
inductive ListMode where
  /-- Members that fail are left out. -/
  | forgiving
  /-- A member that fails spoils the list. -/
  | strict
  /-- Strict, and members may begin with a combinator. -/
  | relative
  /-- Strict, and there is one member, with one compound. -/
  | compound
  deriving DecidableEq, Repr

/-- Compiles the tokens of an argument, for the pseudo-class or pseudo-element with the given text.
-/
abbrev ListCompiler := CompileContext → ListMode → List Token → String → Compile ListId

namespace Compile

def pushList (complexes : List ComplexId) : Compile ListId := do
  let a ← get
  set { a with
    lists := a.lists.push { complexes, containsHas := complexes.any a.complexBearsHas } }
  return ⟨a.lists.size⟩

def pushComplex (c : ComplexSelector) : Compile ComplexId := do
  let a ← get
  set { a with complexes := a.complexes.push c }
  return ⟨a.complexes.size⟩

/-! ### Compounds -/

/-- The rank of a test: cheap tests are made first, those that ask for related elements last. -/
def rank (a : Arena) (s : SimpleSelector) : Nat :=
  if a.bearsHas s then 5
  else
    match s with
    | .id _ => 0
    | .type .. => 1
    | .class _ => 2
    | .attribute _ => 3
    | .pseudo _ => 4

/-- The places of the tests by rank; equal ranks keep their order. -/
def matchOrder (a : Arena) (simples : List SimpleSelector) : List Nat :=
  let ranks := simples.map (rank a)
  (List.range simples.length).mergeSort fun i j => ranks.getD i 0 ≤ ranks.getD j 0

def isHas : SimpleSelector → Bool
  | .pseudo (.logical .has _) => true
  | _ => false

/-- What is read of a compound: its tests up to the first pseudo-element, that pseudo-element, and
the compound inside `::slotted()`. -/
structure Draft where
  simples : List SimpleSelector := []
  pseudoElement : Option String := none
  slotted : Option CompoundId := none

def pushCompound (d : Draft) : Compile CompoundId := do
  let a ← get
  let compound : Compound :=
    { simples := d.simples
      pseudoElement := d.pseudoElement
      hasNestedHas := d.simples.any fun s => a.bearsHas s && !isHas s
      containsHas := d.simples.any a.bearsHas
      matchOrder := matchOrder a d.simples }
  set { a with compounds := a.compounds.push compound }
  return ⟨a.compounds.size⟩

/-! ### Arguments of words -/

/-- The single name among the arguments of `:dir()`. -/
def dirWord? (tokens : List Token) : Option String :=
  match Token.trim tokens with
  | [⟨.ident word, _, _⟩] => some (Text.lower word)
  | _ => none

/-- One language range: a name, a string, a star, or a star before a name that starts with a
hyphen. -/
def langRange? (member : List Token) : Option String :=
  match Token.trim member with
  | [⟨.ident range, _, _⟩] => some range
  | [⟨.string range, _, _⟩] => some range
  | [⟨.delim '*', _, _⟩] => some "*"
  | [⟨.delim '*', _, _⟩, ⟨.ident rest, _, _⟩] =>
    if rest.startsWith "-" then some ("*" ++ rest) else none
  | _ => none

/-- Whether a token is the word that starts the list of `:nth-child()`. -/
def isOf (t : Token) : Bool :=
  match t.kind with
  | .ident word => Text.sameLetters word "of"
  | _ => false

/-- The tokens before and after the first `of` that whitespace precedes. -/
def cutAtOf? : List Token → Option (List Token × List Token)
  | space :: word :: r =>
    if space.isWhitespace && isOf word then
      some ([space], r)
    else
      (cutAtOf? (word :: r)).map fun (before, after) => (space :: before, after)
  | _ => none

/-! ### Pseudo-classes and pseudo-elements -/

/-- The value, or the failure `e` where there is none. -/
def need (e : SelectorError) : Option α → Compile α
  | some x => return x
  | none => throw e

/-- A counter with its formula, and for `-child` counters the list that picks the siblings. -/
def nth (nested : ListCompiler) (ctx : CompileContext) (kind : NthKind) (tokens : List Token)
    (text : String) : Compile PseudoClass := do
  let cut := if kind.countsType then none else cutAtOf? tokens
  match cut with
  | none =>
    let formula ← need (.invalidConstruct text) (AnB.ofTokens? tokens)
    return .nth kind formula none
  | some (before, after) =>
    let formula ← need (.invalidConstruct text) (AnB.ofTokens? before)
    let list ← nested { ctx with nested := true } .strict after text
    return .nth kind formula (some list)

/-- The pseudo-class with a known name. -/
def namedPseudoClass (nested : ListCompiler) (ctx : CompileContext) (kind : PseudoClassName)
    (name : String) (args : Option Arguments) (text : String) : Compile PseudoClass := do
  let tokens := args.elim [] Arguments.tokens
  let inner := { ctx with nested := true }
  match kind with
  | .logical .is => return .logical .is (← nested inner .forgiving tokens text)
  | .logical .whereAny => return .logical .whereAny (← nested inner .forgiving tokens text)
  | .logical .not => return .logical .not (← nested inner .strict tokens text)
  | .logical .has =>
    if ctx.inHas then
      throw (.invalidConstruct text)
    return .logical .has (← nested { inner with inHas := true } .relative tokens text)
  | .nth k => nth nested ctx k tokens text
  | .edge k => return .nth k ⟨0, 1⟩ none
  | .host =>
    if args.isSome then
      return .host (some (← nested inner .compound tokens text))
    return .host none
  | .hostContext => return .hostContext (← nested inner .compound tokens text)
  | .dir => return .dir (← need (.invalidConstruct text) (dirWord? tokens))
  | .lang =>
    return .lang (← need (.invalidConstruct text) ((Token.splitList tokens).mapM langRange?))
  | .state s => return .state s
  | .unevaluated _ => return .unsupported (Text.lower name)

/-- A pseudo-class. A vendor's name that is not known is known to be not evaluated. -/
def pseudoClass (nested : ListCompiler) (ctx : CompileContext) (name : String)
    (args : Option Arguments) (text : String) : Compile PseudoClass :=
  match PseudoClassName.ofText? name with
  | none =>
    if (Text.lower name).startsWith "-webkit-" then return .unsupported (Text.lower name)
    else throw (.unknownPseudoClass name)
  | some kind =>
    if kind.allows args.isSome then namedPseudoClass nested ctx kind name args text
    else throw (.invalidConstruct text)

/-- The first compound of a list, which has one only where it is the argument of `::slotted()`. -/
def firstCompound (a : Arena) (l : ListId) : CompoundId :=
  match (a.list l).complexes with
  | c :: _ => (a.complex c).first
  | [] => ⟨0⟩

/-- Adds a pseudo-element to what is read of a compound; the first one counts. None may stand inside
an argument. -/
def pseudoElement (nested : ListCompiler) (ctx : CompileContext) (d : Draft) (name : String)
    (args : Option Arguments) (text : String) : Compile Draft := do
  if ctx.nested then
    throw (.invalidConstruct text)
  let kind ← need (.unknownPseudoElement name) (PseudoElementName.ofText? name)
  if !kind.allows args.isSome then
    throw (.invalidConstruct text)
  if kind = .slotted then
    let list ← nested { ctx with nested := true } .compound (args.elim [] Arguments.tokens) text
    return { d with slotted := some (firstCompound (← get) list) }
  return { d with pseudoElement := d.pseudoElement.or (some (Text.lower name)) }

/-- Unprefixed attribute names stand for attributes in no namespace. -/
def attributeTest (t : AttributeTest) : AttributeTest :=
  { t with space := if t.space = .implied then .absent else t.space }

/-- Adds a test to what is read of a compound; after a pseudo-element it has no effect. -/
def Draft.add (d : Draft) (s : SimpleSelector) : Draft :=
  if d.pseudoElement.isNone then { d with simples := d.simples ++ [s] } else d

/-- Adds a component to what is read of a compound. Nothing may follow `::slotted()`. -/
def component (nested : ListCompiler) (ctx : CompileContext) (whole : String) (d : Draft)
    (c : Component) : Compile Draft := do
  if d.slotted.isSome then
    throw (.invalidConstruct whole)
  match c with
  | .type space name => return d.add (.type space name)
  | .id name => return d.add (.id name)
  | .class name => return d.add (.class name)
  | .attribute t => return d.add (.attribute (attributeTest t))
  | .nesting => return d.add (.pseudo (.state .scope))
  | .pseudoClass name args text =>
    return d.add (.pseudo (← pseudoClass nested ctx name args text))
  | .pseudoElement name args _ text => pseudoElement nested ctx d name args text

/-- Stores a compound, and gives the steps from it: none, or one to the compound inside
`::slotted()`. A pseudo-element may only stand in the last compound. -/
def compound (nested : ListCompiler) (ctx : CompileContext) (whole : String) (last : Bool)
    (components : List Component) : Compile (CompoundId × List (Combinator × CompoundId)) := do
  let d ← components.foldlM (component nested ctx whole) {}
  if (d.pseudoElement.isSome || d.slotted.isSome) && !last then
    throw (.invalidConstruct whole)
  let id ← pushCompound d
  return (id, d.slotted.toList.map (.slot, ·))

/-! ### Complex selectors and lists -/

/-- The meaning of a combinator; columns have none. -/
def combinator : CombinatorMark → Compile Combinator
  | .descendant => return .descendant
  | .child => return .child
  | .nextSibling => return .nextSibling
  | .subsequentSibling => return .subsequentSibling
  | .column => throw (.unsupportedCombinator "||")

/-- The compounds after the first, each with the combinator before it. -/
def joined (nested : ListCompiler) (ctx : CompileContext) (whole : String) :
    List (Combinator × List Component) → Compile (List (Combinator × CompoundId))
  | [] => return []
  | (mark, components) :: more => do
    let (id, slotted) ← compound nested ctx whole more.isEmpty components
    let rest ← joined nested ctx whole more
    return (mark, id) :: slotted ++ rest

def isId : SimpleSelector → Bool
  | .id _ => true
  | _ => false

/-- A selector is followed from its first compound if that has an id and something is joined to it,
in the same tree. -/
def direction (a : Arena) (relative : Bool) (first : CompoundId)
    (joined : List (Combinator × CompoundId)) : Direction :=
  let anchored := (a.compound first).simples.any isId
  if anchored && !relative && !joined.isEmpty && !joined.any (·.1 == .slot) then .descend
  else .ascend

def complex (nested : ListCompiler) (ctx : CompileContext) (relative : Bool) (node : ComplexNode) :
    Compile ComplexId := do
  let leading ← node.leading.mapM combinator
  let marks ← node.joined.mapM fun (mark, components) =>
    return (← combinator mark, components)
  let (first, slotted) ← compound nested ctx node.text marks.isEmpty node.first
  let rest ← joined nested ctx node.text marks
  let joined := slotted ++ rest
  pushComplex
    { leading := if relative then some (leading.getD .descendant) else none
      first, joined, text := node.text
      direction := direction (← get) relative first joined }

/-- A member of a forgiving list: nothing where it is blank or fails. -/
def forgivenMember (nested : ListCompiler) (ctx : CompileContext) (member : List Token) :
    Compile (Option ComplexId) :=
  if (Token.trim member).isEmpty then
    return none
  else
    tryCatch
      (do
        let node ← liftExcept (ComplexNode.ofTokens ctx.source false member)
        some <$> complex nested ctx false node)
      fun _ => return none
where
  /-- A result that was found without the arena. -/
  liftExcept : Except SelectorError ComplexNode → Compile ComplexNode
    | .ok x => return x
    | .error e => throw e

/-- The list in an argument, for one level of nesting. A member that breaks the grammar blames the
pseudo-class around it. -/
def listWith (nested : ListCompiler) : ListCompiler := fun ctx mode tokens text => do
  if mode = .forgiving then
    let members ← (Token.splitList tokens).filterMapM (forgivenMember nested ctx)
    pushList members
  else
    match ComplexNode.listOfTokens ctx.source (mode = .relative) tokens with
    | .error _ => throw (.invalidSelector text)
    | .ok nodes =>
      if mode = .compound && !isCompound nodes then
        throw (.invalidConstruct text)
      pushList (← nodes.mapM (complex nested ctx (mode = .relative)))
where
  /-- One member without combinators. -/
  isCompound : List ComplexNode → Bool
    | [node] => node.joined.isEmpty
    | _ => false

/-- The list in an argument, with at most `level` levels of lists from there on. -/
def list : Nat → ListCompiler
  | 0 => fun _ _ _ text => throw (.invalidSelector text)
  | level + 1 => listWith (list level)

end Compile

/-- Compiles a selector text. Tokens that cannot stand in a selector come first, then the grammar of
the whole list, then the meaning of its members from left to right. -/
def compile (text : String) : Except SelectorError CompiledSelector := do
  let stream ← TokenStream.ofText text
  match ComplexNode.listOfTokens stream.source false stream.tokens with
  | .error _ => throw (.invalidSelector text)
  | .ok nodes =>
    let nested := Compile.list stream.tokens.length
    let ctx : CompileContext := { source := stream.source }
    let step : Compile ListId := do
      Compile.pushList (← nodes.mapM (Compile.complex nested ctx false))
    match step.run.run {} with
    | (.ok root, arena) => return { source := text, arena, root }
    | (.error e, _) => throw e

end Selectors

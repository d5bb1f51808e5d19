import Selectors.Proofs.Compiled.Compiling
import Selectors.Proofs.Syntax.Quoting

/-!
# What the steps of compiling return, store and fail with

A test comes into the arena with the compound that it stands in, and compiling makes it either from
a name or from a pseudo-class.  So a property of tests that these ways of making them have holds of
all tests of a compiled selector, also of those in members that were left out.  What a member fails
with for its grammar or its place is quoted from the source: each text that the compiler is given
was recorded by the reader, and it is handed on unchanged to the lists in an argument.  Both are
shown on one way through the compiler.

* `Arena.TestsHave` says that every stored test has a property, and `Compile.Makes` lists the ways
  of making a test.
* `SelectorError.RaisedIn` lists the failures of members.
* `Compile.Behaves` is the specification of a step, and `Compile.Behaves.complex` and
  `Compile.behavesIn_list` are the results for members and for lists.
* `compile_testsHave` is the result for texts, and `countsType_of_compile` a case of it: a counter
  of one type takes no list.
-/

namespace Selectors

/-- Every stored test has the property. -/
def Arena.TestsHave (a : Arena) (P : SimpleSelector → Prop) : Prop :=
  ∀ d, ∀ s ∈ (a.compound d).simples, P s

/-- The failures of members in a source.  Tokens are no cause, and what breaks the grammar or stands
in a wrong place is quoted. -/
inductive SelectorError.RaisedIn (source : List Char) : SelectorError → Prop
  | invalidSelector {text : String} (h : Quoted source text) :
      RaisedIn source (.invalidSelector text)
  | invalidConstruct {text : String} (h : Quoted source text) :
      RaisedIn source (.invalidConstruct text)
  | unknownPseudoClass (name : String) : RaisedIn source (.unknownPseudoClass name)
  | unknownPseudoElement (name : String) : RaisedIn source (.unknownPseudoElement name)
  | unsupportedCombinator : RaisedIn source (.unsupportedCombinator "||")

open SelectorError (RaisedIn)

namespace Compile

/-- Whatever compiling makes a test of has the property. -/
structure Makes (P : SimpleSelector → Prop) : Prop where
  ofType : ∀ space name, P (.type space name)
  ofId : ∀ name, P (.id name)
  ofClass : ∀ name, P (.class name)
  ofAttribute : ∀ t, P (.attribute (attributeTest t))
  ofNesting : P (.pseudo (.state .scope))
  ofPseudo : ∀ nested ctx name args text,
    Returns (pseudoClass nested ctx name args text) fun p => P (.pseudo p)

variable {α β : Type} {source : List Char} {P : SimpleSelector → Prop} {R R' : α → Prop}

/-- The step returns something with the property `R`, it stores only tests with the property `P`,
and what it fails with is raised in the source. -/
def Behaves (source : List Char) (P : SimpleSelector → Prop) (x : Compile α) (R : α → Prop) :
    Prop :=
  Meets (·.TestsHave P) x (fun v a => R v ∧ a.TestsHave P)
    fun e a => RaisedIn source e ∧ a.TestsHave P

namespace Behaves

variable {x : Compile α} {e : SelectorError}

/-! ### Rules -/

theorem pure {v : α} (hv : R v) : Behaves source P (Pure.pure v) R :=
  Meets.pure fun _ ha => ⟨hv, ha⟩

theorem throw (he : RaisedIn source e) :
    Behaves source P (MonadExcept.throw e : Compile α) R :=
  Meets.throw fun _ ha => ⟨he, ha⟩

theorem throw_bind (he : RaisedIn source e) (f : α → Compile β) {R : β → Prop} :
    Behaves source P (MonadExcept.throw e >>= f) R :=
  throw he

theorem get : Behaves source P get fun _ => True :=
  fun _ ha => ⟨trivial, ha⟩

/-- More is known of what a step returns. -/
theorem returning (hx : Behaves source P x R) (hR : Returns x R') : Behaves source P x R' :=
  Meets.of_runs (fun _ _ _ ha hrun => ⟨hR.of_run hrun, (hx.of_ok ha hrun).2⟩)
    fun _ _ _ ha hrun => hx.of_error ha hrun

/-- Less is said of what a step returns. -/
theorem weaken (hx : Behaves source P x R) (h : ∀ v, R v → R' v) : Behaves source P x R' :=
  Meets.ending hx fun v _ hv => ⟨h v hv.1, hv.2⟩

/-- A step that is known to start with a value that has a property. -/
theorem of_held {p : Prop} (hx : p → Behaves source P x R) :
    Meets (fun a => p ∧ a.TestsHave P) x (fun v a => R v ∧ a.TestsHave P)
      fun e a => RaisedIn source e ∧ a.TestsHave P :=
  fun a ha => hx ha.1 a ha.2

/-- **Two steps**, of which the second knows what the first returns. -/
theorem bind {f : α → Compile β} {R' : β → Prop} (hx : Behaves source P x R)
    (hf : ∀ v, R v → Behaves source P (f v) R') : Behaves source P (x >>= f) R' :=
  Meets.bind hx fun v => of_held (hf v)

theorem map {f : α → β} {R' : β → Prop} (hx : Behaves source P x R) (hf : ∀ v, R v → R' (f v)) :
    Behaves source P (f <$> x) R' := by
  rw [map_eq_pure_bind]
  exact hx.bind fun v hv => pure (hf v hv)

/-- A failure that is caught does not count. -/
theorem tryCatch {y : SelectorError → Compile α} (hx : Behaves source P x R)
    (hy : ∀ e, Behaves source P (y e) R) : Behaves source P (tryCatch x y) R :=
  Meets.tryCatch hx fun e => of_held fun _ => hy e

/-- A row of steps returns what each of them returns. -/
theorem mapM {f : β → Compile α} {xs : List β} (hf : ∀ x ∈ xs, Behaves source P (f x) R) :
    Behaves source P (xs.mapM f) fun vs => ∀ v ∈ vs, R v := by
  have hrow : Meets _ (xs.mapM f) _ fun e a => RaisedIn source e ∧ a.TestsHave P :=
    Meets.mapM (fun vs a => (∀ v ∈ vs, R v) ∧ a.TestsHave P) fun x hx vs => of_held fun hvs =>
      (hf x hx).weaken fun v hv =>
        List.forall_mem_append.mpr ⟨hvs, List.forall_mem_singleton.mpr hv⟩
  exact hrow.starting fun _ ha => ⟨fun v hv => absurd hv List.not_mem_nil, ha⟩

/-- A row of steps of which some return nothing. -/
theorem filterMapM {f : β → Compile (Option α)} (xs : List β)
    (hf : ∀ x, Behaves source P (f x) fun _ => True) :
    Behaves source P (xs.filterMapM f) fun _ => True :=
  Meets.filterMapM (fun _ (a : Arena) => True ∧ a.TestsHave P) (fun x _ _ => of_held fun _ => hf x)
    |>.starting fun _ ha => ⟨trivial, ha⟩

/-- A fold keeps what each of its steps keeps. -/
theorem foldlM {f : α → β → Compile α} {xs : List β}
    (hf : ∀ x ∈ xs, ∀ v, R v → Behaves source P (f v x) R) {v : α} (hv : R v) :
    Behaves source P (xs.foldlM f v) R :=
  Meets.foldlM (fun v (a : Arena) => R v ∧ a.TestsHave P) (fun x hx v => of_held (hf x hx v)) v
    |>.starting fun _ ha => ⟨hv, ha⟩

end Behaves

end Compile

open Compile

/-- Lists behave if the text that they are blamed on is quoted. -/
def ListCompiler.BehavesIn (source : List Char) (P : SimpleSelector → Prop)
    (nested : ListCompiler) : Prop :=
  ∀ ctx mode tokens text, ctx.source = source → Quoted source text →
    Behaves source P (nested ctx mode tokens text) fun _ => True

namespace Compile

variable {α : Type} {source : List Char} {P : SimpleSelector → Prop}

namespace Behaves

theorem need {e : SelectorError} (he : RaisedIn source e) (o : Option α) :
    Behaves source P (need e o) fun _ => True := by
  cases o with
  | none => exact throw he
  | some v => exact pure trivial

/-! ### Combinators -/

/-- A combinator that nothing implements is an error of its own, and is raised. -/
theorem combinator (mark : CombinatorMark) :
    Behaves source P (combinator mark) fun _ => True := by
  cases mark with
  | column => exact throw .unsupportedCombinator
  | _ => exact pure trivial

/-- A leading combinator, where one is written. -/
theorem leading (mark : Option CombinatorMark) :
    Behaves source P (mark.mapM Compile.combinator) fun _ => True := by
  cases mark with
  | none => exact pure trivial
  | some mark => exact map (combinator mark) fun _ h => h

/-- The compounds after the first are handed on as they were read. -/
theorem marks {marks : List (CombinatorMark × List Component)}
    (hmarks : ∀ step ∈ marks, ∀ c ∈ step.2, c.Quotes source) :
    Behaves source P (marks.mapM fun (mark, components) => do
      return (← Compile.combinator mark, components))
        fun marks => ∀ step ∈ marks, ∀ c ∈ step.2, c.Quotes source :=
  mapM fun step hstep => (combinator step.1).bind fun _ _ => pure (hmarks step hstep)

/-! ### Pseudo-classes -/

section lists

variable {nested : ListCompiler} {ctx : CompileContext}
  (hnested : nested.BehavesIn source P) (hctx : ctx.source = source)

include hnested hctx

/-- A pseudo-class with a list behaves as its list does. -/
theorem ofList (mode : ListMode) (tokens : List Token) {text : String}
    (htext : Quoted source text) (make : ListId → PseudoClass) :
    Behaves source P (do return make (← nested ctx mode tokens text)) fun _ => True :=
  (hnested ctx mode tokens text hctx htext).bind fun _ _ => pure trivial

/-- A counting pseudo-class fails with its formula, or with the list behind it. -/
theorem nth (kind : NthKind) (tokens : List Token) {text : String} (htext : Quoted source text) :
    Behaves source P (nth nested ctx kind tokens text) fun _ => True := by
  have hconstruct := RaisedIn.invalidConstruct htext
  have hinner : ({ ctx with nested := true } : CompileContext).source = source := hctx
  unfold Compile.nth
  dsimp only
  split
  · exact (need hconstruct _).bind fun formula _ => pure trivial
  · exact (need hconstruct _).bind fun formula _ =>
      ofList hnested hinner _ _ htext (.nth kind formula ∘ some)

/-- A pseudo-class of a known name fails for its argument only, which its text quotes. -/
theorem namedPseudoClass (kind : PseudoClassName) (name : String) (args : Option Arguments)
    {text : String} (htext : Quoted source text) :
    Behaves source P (namedPseudoClass nested ctx kind name args text) fun _ => True := by
  have hconstruct := RaisedIn.invalidConstruct htext
  have hinner : ({ ctx with nested := true } : CompileContext).source = source := hctx
  have hbelow : ({ ctx with nested := true, inHas := true } : CompileContext).source = source :=
    hctx
  cases kind with
  | logical op =>
      cases op with
      | is => exact ofList hnested hinner _ _ htext (.logical .is)
      | whereAny => exact ofList hnested hinner _ _ htext (.logical .whereAny)
      | not => exact ofList hnested hinner _ _ htext (.logical .not)
      | has =>
          unfold Compile.namedPseudoClass
          dsimp only
          split
          · exact throw_bind hconstruct _
          · exact ofList hnested hbelow _ _ htext (.logical .has)
  | nth kind => exact nth hnested hctx kind _ htext
  | edge kind => exact pure trivial
  | host =>
      unfold Compile.namedPseudoClass
      dsimp only
      split
      · exact ofList hnested hinner _ _ htext (.host ∘ some)
      · exact pure trivial
  | hostContext => exact ofList hnested hinner _ _ htext .hostContext
  | dir => exact (need hconstruct _).bind fun word _ => pure trivial
  | lang => exact (need hconstruct _).bind fun ranges _ => pure trivial
  | state s => exact pure trivial
  | unevaluated s => exact pure trivial

/-- A pseudo-class fails for an unknown name, or as the known one does. -/
theorem pseudoClass (name : String) (args : Option Arguments) {text : String}
    (htext : Quoted source text) :
    Behaves source P (pseudoClass nested ctx name args text) fun _ => True := by
  unfold Compile.pseudoClass
  split
  · split
    · exact pure trivial
    · exact throw (.unknownPseudoClass name)
  · split
    · exact namedPseudoClass hnested hctx _ name args htext
    · exact throw (.invalidConstruct htext)

/-! ### Compounds -/

/-- A pseudo-element adds no test. -/
theorem pseudoElement (d : Draft) (name : String) (args : Option Arguments) {text : String}
    (htext : Quoted source text) :
    Behaves source P (pseudoElement nested ctx d name args text)
      fun d' => d'.simples = d.simples := by
  have hconstruct := RaisedIn.invalidConstruct htext
  unfold Compile.pseudoElement
  dsimp only
  split
  · exact throw_bind hconstruct _
  refine (need (.unknownPseudoElement name) _).bind fun kind _ => ?_
  split
  · exact throw_bind hconstruct _
  split
  · exact (hnested { ctx with nested := true } _ _ _ hctx htext).bind fun l _ =>
      get.bind fun a _ => pure rfl
  · exact pure rfl

omit hnested hctx in
/-- One more simple selector in a draft. -/
theorem simples_add {d : Draft} (hd : ∀ s ∈ d.simples, P s) {s : SimpleSelector}
    (hs : P s) : ∀ s' ∈ (d.add s).simples, P s' := by
  unfold Draft.add
  split
  · exact List.forall_mem_append.mpr ⟨hd, List.forall_mem_singleton.mpr hs⟩
  · exact hd

/-- **A component** adds a test that has the property, or none. -/
theorem component (hP : Makes P) {whole : String} (hwhole : Quoted source whole) {d : Draft}
    (hd : ∀ s ∈ d.simples, P s) {c : Component} (hc : c.Quotes source) :
    Behaves source P (component nested ctx whole d c) fun d' => ∀ s ∈ d'.simples, P s := by
  unfold Compile.component
  dsimp only
  split
  · exact throw_bind (.invalidConstruct hwhole) _
  cases c with
  | type space name => exact pure (simples_add hd (hP.ofType space name))
  | id name => exact pure (simples_add hd (hP.ofId name))
  | «class» name => exact pure (simples_add hd (hP.ofClass name))
  | «attribute» t => exact pure (simples_add hd (hP.ofAttribute t))
  | nesting => exact pure (simples_add hd hP.ofNesting)
  | pseudoClass name args text =>
      have hp := (pseudoClass hnested hctx name args (hc text rfl)).returning
        (hP.ofPseudo nested ctx name args text)
      exact hp.bind fun p hp => pure (simples_add hd hp)
  | pseudoElement name args oneColon text =>
      refine (pseudoElement hnested hctx d name args (hc text rfl)).weaken fun d' hd' => ?_
      rw [hd']
      exact hd

omit hnested hctx in
/-- A compound is stored with the tests that were read. -/
theorem pushCompound {d : Draft} (hd : ∀ s ∈ d.simples, P s) :
    Behaves source P (pushCompound d) fun _ => True := by
  intro a ha
  refine ⟨trivial, fun c s hs => ?_⟩
  let D : Compound :=
    { simples := d.simples
      pseudoElement := d.pseudoElement
      hasNestedHas := d.simples.any fun s => a.bearsHas s && !isHas s
      containsHas := d.simples.any a.bearsHas
      matchOrder := matchOrder a d.simples }
  change s ∈ (((a.compounds.push D)[c.index]?).getD _).simples at hs
  rw [Array.getElem?_push] at hs
  split at hs
  · exact hd s hs
  · exact ha c s hs

/-- A compound stores one compound, with the tests of its components. -/
theorem compound (hP : Makes P) {whole : String} (hwhole : Quoted source whole) (last : Bool)
    {components : List Component} (hcs : ∀ c ∈ components, c.Quotes source) :
    Behaves source P (compound nested ctx whole last components) fun _ => True := by
  unfold Compile.compound
  have hdraft : Behaves source P (components.foldlM (Compile.component nested ctx whole) {})
      fun d => ∀ s ∈ d.simples, P s :=
    foldlM (fun c hc d hd => component hnested hctx hP hwhole hd (hcs c hc))
      fun s hs => absurd hs List.not_mem_nil
  refine hdraft.bind fun d hd => ?_
  dsimp only
  split
  · exact throw_bind (.invalidConstruct hwhole) _
  · exact (pushCompound hd).bind fun id _ => pure trivial

/-! ### Complex selectors -/

/-- The compounds of a member, one by one. -/
theorem joined (hP : Makes P) {whole : String} (hwhole : Quoted source whole)
    {marks : List (Combinator × List Component)}
    (hmarks : ∀ step ∈ marks, ∀ c ∈ step.2, c.Quotes source) :
    Behaves source P (joined nested ctx whole marks) fun _ => True := by
  induction marks with
  | nil => exact pure trivial
  | cons mark more ih =>
      obtain ⟨hmark, hmore⟩ := List.forall_mem_cons.mp hmarks
      exact (compound hnested hctx hP hwhole more.isEmpty hmark).bind fun v _ =>
        (ih hmore).bind fun rest _ => pure trivial

omit hnested hctx in
theorem pushComplex (c : ComplexSelector) : Behaves source P (pushComplex c) fun _ => True :=
  fun _ ha => ⟨trivial, ha⟩

omit hnested hctx in
theorem pushList (cs : List ComplexId) : Behaves source P (pushList cs) fun _ => True :=
  fun _ ha => ⟨trivial, ha⟩

/-- **A member that was read from the source** behaves, since all texts in it are quoted. -/
theorem complex (hP : Makes P) (relative : Bool) {node : ComplexNode}
    (hnode : node.Quotes source) :
    Behaves source P (complex nested ctx relative node) fun _ => True := by
  unfold Compile.complex
  refine (leading node.leading).bind fun leading _ => ?_
  refine (marks hnode.joined).bind fun marks hmarks => ?_
  refine (compound hnested hctx hP hnode.whole marks.isEmpty hnode.first).bind fun v _ => ?_
  exact (joined hnested hctx hP hnode.whole hmarks).bind fun rest _ =>
    get.bind fun a _ => pushComplex _

/-! ### Lists -/

omit hnested in
/-- Reading a member blames the tokens that it consists of. -/
theorem read (relative : Bool) (tokens : List Token) :
    Behaves source P
      (forgivenMember.liftExcept (ComplexNode.ofTokens ctx.source relative tokens))
        fun node => node.Quotes source := by
  rw [hctx]
  cases hread : ComplexNode.ofTokens source relative tokens with
  | error e =>
      refine throw ?_
      unfold ComplexNode.ofTokens at hread
      split at hread
      · cases hread
      · cases hread
        exact .invalidSelector (quoted_sliceOf source _)
  | ok node => exact pure (ComplexNode.quotes_of_ofTokens hread)

/-- A forgiven member stores what it has stored when it fails. -/
theorem forgivenMember (hP : Makes P) (tokens : List Token) :
    Behaves source P (forgivenMember nested ctx tokens) fun _ => True := by
  unfold Compile.forgivenMember
  split
  · exact pure trivial
  refine tryCatch ?_ fun e => pure trivial
  exact (read hctx false tokens).bind fun node hnode =>
    map (complex hnested hctx hP false hnode) fun _ h => h

end lists

/-- **The lists of one level** blame the text that they were given, or fail as a member does. -/
theorem listWith (hP : Makes P) {nested : ListCompiler} (hnested : nested.BehavesIn source P) :
    (listWith nested).BehavesIn source P := by
  intro ctx mode tokens text hctx htext
  unfold Compile.listWith
  split
  · exact (filterMapM _ (forgivenMember hnested hctx hP)).bind fun cs _ => pushList cs
  split
  · exact throw (.invalidSelector htext)
  rename_i nodes hread
  rw [hctx] at hread
  dsimp only
  split
  · exact throw_bind (.invalidConstruct htext) _
  · have hmembers : Behaves source P
        (nodes.mapM (Compile.complex nested ctx (decide (mode = .relative)))) _ :=
      mapM fun node hnode =>
        complex hnested hctx hP _ (ComplexNode.quotes_of_listOfTokens hread hnode)
    exact hmembers.bind fun cs _ => pushList cs

end Behaves

/-- **Lists behave at every level.** -/
theorem behavesIn_list (hP : Makes P) (level : Nat) : (list level).BehavesIn source P := by
  induction level with
  | zero => exact fun _ _ _ _ _ htext => Behaves.throw (.invalidSelector htext)
  | succ level ih => exact Behaves.listWith hP ih

variable {nested : ListCompiler}

/-- A counter of one type takes no list. -/
def countsAll : SimpleSelector → Prop
  | .pseudo (.nth kind _ (some _)) => kind.countsType = false
  | _ => True

/-- A pseudo-class with a list is no counter. -/
theorem returns_countsAll {x : Compile ListId} (make : ListId → PseudoClass)
    (hmake : ∀ l, countsAll (.pseudo (make l))) :
    Returns (do return make (← x)) fun p => countsAll (.pseudo p) :=
  (Returns.any _).bind fun l _ => Returns.pure (hmake l)

/-- A counter that counts one type has no list: no list is read for it. -/
theorem nth_countsAll (ctx : CompileContext) (kind : NthKind) (tokens : List Token)
    (text : String) :
    Returns (nth nested ctx kind tokens text) fun p => countsAll (.pseudo p) := by
  unfold nth
  dsimp only
  split
  · exact (Returns.any _).bind fun formula _ => Returns.pure trivial
  · rename_i hcut
    have hall : kind.countsType = false := by
      cases hkind : kind.countsType with
      | false => rfl
      | true =>
          rw [hkind] at hcut
          cases hcut
    refine (Returns.any _).bind fun formula _ => ?_
    exact returns_countsAll (.nth kind formula ∘ some) fun l => hall

/-- No other name makes a counter that counts one type and has a list. -/
theorem namedPseudoClass_countsAll (ctx : CompileContext) (kind : PseudoClassName) (name : String)
    (args : Option Arguments) (text : String) :
    Returns (namedPseudoClass nested ctx kind name args text) fun p => countsAll (.pseudo p) := by
  cases kind with
  | logical op =>
      cases op with
      | has =>
          unfold namedPseudoClass
          dsimp only
          split
          · exact Returns.throw _
          · exact returns_countsAll _ fun l => trivial
      | _ => exact returns_countsAll _ fun l => trivial
  | nth kind => exact nth_countsAll ctx kind _ text
  | host =>
      unfold namedPseudoClass
      dsimp only
      split
      · exact returns_countsAll (.host ∘ some) fun l => trivial
      · exact Returns.pure trivial
  | hostContext => exact returns_countsAll _ fun l => trivial
  | dir => exact (Returns.any _).bind fun word _ => Returns.pure trivial
  | lang => exact (Returns.any _).bind fun ranges _ => Returns.pure trivial
  | _ => exact Returns.pure trivial

/-- However a test is made, a counter of one type has no list. -/
theorem makes_countsAll : Makes countsAll where
  ofType _ _ := trivial
  ofId _ := trivial
  ofClass _ := trivial
  ofAttribute _ := trivial
  ofNesting := trivial
  ofPseudo nested ctx name args text := by
    unfold pseudoClass
    split
    · split
      · exact Returns.pure trivial
      · exact Returns.throw _
    · split
      · exact namedPseudoClass_countsAll ctx _ name args text
      · exact Returns.throw _

end Compile

open Compile

/-- **All tests that compiling stores** have the properties that every way of making one has. -/
theorem compile_testsHave {P : SimpleSelector → Prop} (hP : Makes P) {text : String}
    {s : CompiledSelector} (hs : compile text = .ok s) : s.arena.TestsHave P := by
  obtain ⟨stream, nodes, -, hnodes, hrun, -⟩ := compile_eq_ok_iff.mp hs
  have hmembers : Behaves stream.source P (nodes.mapM (Compile.complex
      (Compile.list stream.tokens.length) { source := stream.source } false)) _ :=
    Behaves.mapM fun node hnode => Behaves.complex (behavesIn_list hP _) rfl hP false
      (ComplexNode.quotes_of_listOfTokens hnodes hnode)
  have hwhole := hmembers.bind fun cs _ => Behaves.pushList cs
  exact (hwhole.of_ok (fun d t ht => absurd ht List.not_mem_nil) hrun).2

/-- **A counter of one type takes no list.** -/
theorem countsType_of_compile {text : String} {s : CompiledSelector}
    (hs : compile text = .ok s) {d : CompoundId} {kind : NthKind} {formula : AnB} {l : ListId}
    (h : .pseudo (.nth kind formula (some l)) ∈ (s.arena.compound d).simples) :
    kind.countsType = false :=
  compile_testsHave makes_countsAll hs d _ h

end Selectors

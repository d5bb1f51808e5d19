import Selectors.Proofs.Compiled.Alike
import Selectors.Proofs.Compiled.Words

/-!
# Compiling a completed run

A run compiles to the same parts as one that completes it, but for the texts of complex selectors.
The two are read alike, and their arguments complete each other; so what is compiled inside is the
same by induction on the levels of nesting.  Neither the source nor the number of levels counts, as
long as there are more levels than tokens.

* `ListCompiler.Alike` is the statement for the lists inside.
* `Compile.complex_alike` is about complex selectors, in an argument or not, as long as no
  pseudo-element stands in them.
* `Compile.list_alike` is the result.
-/

namespace Selectors

open Token

/-- Two compilers of lists that end alike on a run of less than `n` tokens and one of less than `n'`
that completes it. -/
def ListCompiler.Alike (n n' : Nat) (nested nested' : ListCompiler) : Prop :=
  ∀ (ctx ctx' : CompileContext) (mode : ListMode) (ts us : List Token) (text text' : String),
    ctx.inHas = ctx'.inHas → ctx.nested = true → ctx'.nested = true → Completes [] ts us →
      ts.length < n → us.length < n' →
        Compile.Alike Eq (nested ctx mode ts text) (nested' ctx' mode us text')

namespace ComplexNode

/-- Whether a pseudo-element stands in the selector, outside of arguments. -/
def hasPseudoElement (node : ComplexNode) : Bool :=
  (node.first ++ node.joined.flatMap Prod.snd).any Component.isPseudoElement

end ComplexNode

namespace Compile

open Alike

variable {n n' : Nat} {nested nested' : ListCompiler} {ctx ctx' : CompileContext}
  {args args' : Option Arguments} {ts us : List Token} {text text' whole whole' : String}

/-! ### Pseudo-classes -/

/-- A pseudo-class that is made from one compiled list. -/
theorem ofList_alike (hnested : nested.Alike n n' nested') (mode : ListMode)
    (inner inner' : CompileContext) (hinner : inner.inHas = inner'.inHas)
    (hin : inner.nested = true) (hin' : inner'.nested = true) (h : Completes [] ts us)
    (hlength : ts.length < n) (hlength' : us.length < n') (make : ListId → PseudoClass) :
    Alike Eq (do return make (← nested inner mode ts text))
      (do return make (← nested' inner' mode us text')) := by
  refine bind (hnested inner inner' mode ts us text text' hinner hin hin' h hlength hlength') ?_
  rintro l _ rfl
  exact pure rfl

/-- A pseudo-class that is made from a word, which is the same in both runs. -/
theorem ofWord_alike {α : Type} {e e' : SelectorError} {o o' : Option α} (h : o = o')
    (make : α → PseudoClass) :
    Alike Eq (do return make (← need e o)) (do return make (← need e' o')) := by
  subst h
  refine bind (Alike.need e e' o) ?_
  rintro word _ rfl
  exact pure rfl

/-- A counting pseudo-class ends alike for the completed argument.  A formula leaves no bracket
open, so that the list behind it is completed by itself. -/
theorem nth_alike (hnested : nested.Alike n n' nested') (hctx : ctx.inHas = ctx'.inHas)
    (kind : NthKind) (h : Completes [] ts us) (hlength : ts.length < n)
    (hlength' : us.length < n') :
    Alike Eq (nth nested ctx kind ts text) (nth nested' ctx' kind us text') := by
  have hwhole : Alike Eq
      (do return PseudoClass.nth kind (← need (.invalidConstruct text) (AnB.ofTokens? ts)) none)
      (do return PseudoClass.nth kind (← need (.invalidConstruct text') (AnB.ofTokens? us)) none) :=
    ofWord_alike (AnB.ofTokens?_completes h).1 (.nth kind · none)
  unfold nth
  by_cases hcounts : kind.countsType = true
  · rw [if_pos hcounts, if_pos hcounts]
    exact hwhole
  · rw [if_neg hcounts, if_neg hcounts]
    rcases cutAtOf?_completes h with ⟨hts, hus⟩ |
      ⟨before, after, before', after', stack, hts, hus, hbefore, hopen, hafter, hlt, hlt'⟩
    · rw [hts, hus]
      exact hwhole
    · rw [hts, hus]
      obtain ⟨hsame, hclosed⟩ := AnB.ofTokens?_completes hbefore
      dsimp only
      rw [← hsame]
      cases hformula : AnB.ofTokens? before with
      | none => exact throw_bind _ _ _ _
      | some formula =>
          obtain rfl : stack = [] := Option.some.inj (hopen.symm.trans (hclosed formula hformula))
          exact ofList_alike hnested .strict { ctx with nested := true }
            { ctx' with nested := true } hctx rfl rfl hafter (Nat.lt_trans hlt hlength)
            (Nat.lt_trans hlt' hlength') (.nth kind formula ∘ some)

/-- **The pseudo-classes that are known** end alike for the completed argument, be it a list or a
word. -/
theorem namedPseudoClass_alike (hnested : nested.Alike n n' nested')
    (hctx : ctx.inHas = ctx'.inHas) (kind : PseudoClassName) (name : String)
    (hargs : Option.Rel (Arguments.Completed n n') args args')
    (hallows : kind.allows args.isSome = true) :
    Alike Eq (namedPseudoClass nested ctx kind name args text)
      (namedPseudoClass nested' ctx' kind name args' text') := by
  cases hargs with
  | none =>
      cases kind with
      | edge k => exact pure rfl
      | host => exact pure rfl
      | state s => exact pure rfl
      | unevaluated s => exact pure rfl
      | _ => cases hallows
  | @some args args' hargs =>
      obtain ⟨hcompletes, hlength, hlength'⟩ := hargs
      have hlist : ∀ (mode : ListMode) (make : ListId → PseudoClass),
          Alike Eq (do return make (← nested { ctx with nested := true } mode args.tokens text))
            (do return make (← nested' { ctx' with nested := true } mode args'.tokens text')) :=
        fun mode make => ofList_alike hnested mode { ctx with nested := true }
          { ctx' with nested := true } hctx rfl rfl hcompletes hlength hlength' make
      cases kind with
      | logical op =>
          cases op with
          | is => exact hlist .forgiving (.logical .is)
          | whereAny => exact hlist .forgiving (.logical .whereAny)
          | not => exact hlist .strict (.logical .not)
          | has =>
              unfold namedPseudoClass
              dsimp only
              rw [← hctx]
              split
              · exact throw_bind _ _ _ _
              · exact ofList_alike hnested .relative { ctx with nested := true, inHas := true }
                  { ctx' with nested := true, inHas := true } rfl rfl rfl hcompletes hlength
                  hlength' (.logical .has)
      | nth kind => exact nth_alike hnested hctx kind hcompletes hlength hlength'
      | edge kind => exact pure rfl
      | host => exact hlist .compound (.host ∘ some)
      | hostContext => exact hlist .compound .hostContext
      | dir => exact ofWord_alike (dirWord?_completes hcompletes) .dir
      | lang => exact ofWord_alike (langRanges_completes hcompletes) .lang
      | state s => exact pure rfl
      | unevaluated s => exact pure rfl

/-- A pseudo-class ends alike for the completed argument, or it fails for its name. -/
theorem pseudoClass_alike (hnested : nested.Alike n n' nested') (hctx : ctx.inHas = ctx'.inHas)
    (name : String) (hargs : Option.Rel (Arguments.Completed n n') args args') :
    Alike Eq (pseudoClass nested ctx name args text)
      (pseudoClass nested' ctx' name args' text') := by
  have hsome : args.isSome = args'.isSome := by
    cases hargs <;> rfl
  unfold pseudoClass
  split
  · split
    · exact pure rfl
    · exact throw _ _
  · rw [← hsome]
    split
    · exact namedPseudoClass_alike hnested hctx _ name hargs ‹_›
    · exact throw _ _

/-! ### Compounds -/

/-- Pseudo-elements are compiled in arguments only, where they fail. -/
def Plain (ctx ctx' : CompileContext) (c : Component) : Prop :=
  c.isPseudoElement = true → ctx.nested = true ∧ ctx'.nested = true

/-- Inside an argument every pseudo-element fails. -/
theorem pseudoElement_of_nested (h : ctx.nested = true) (d : Draft) (name : String) :
    pseudoElement nested ctx d name args text = MonadExcept.throw (.invalidConstruct text) := by
  unfold pseudoElement
  dsimp only
  rw [if_pos h]
  rfl

/-- A component ends alike for the completed argument. -/
theorem component_alike (hnested : nested.Alike n n' nested') (hctx : ctx.inHas = ctx'.inHas)
    (d : Draft) {c c' : Component}
    (h : c.Alike (Arguments.Completed n n') (fun _ _ => True) c') (hplain : Plain ctx ctx' c)
    (whole whole' : String) :
    Alike Eq (component nested ctx whole d c) (component nested' ctx' whole' d c') := by
  unfold component
  dsimp only
  by_cases hslotted : d.slotted.isSome = true
  · rw [if_pos hslotted, if_pos hslotted]
    exact throw_bind _ _ _ _
  rw [if_neg hslotted, if_neg hslotted]
  cases h with
  | @plain c hc =>
      cases c with
      | pseudoClass name args text => cases hc
      | pseudoElement name args oneColon text => cases hc
      | _ => exact pure rfl
  | pseudoClass name hargs _ =>
      refine bind (pseudoClass_alike hnested hctx name hargs) ?_
      rintro p _ rfl
      exact pure rfl
  | pseudoElement name oneColon hargs _ =>
      obtain ⟨hin, hin'⟩ := hplain rfl
      dsimp only
      rw [pseudoElement_of_nested hin, pseudoElement_of_nested hin']
      exact throw _ _

/-- The components of two compounds that are read alike. -/
abbrev Components (n n' : Nat) (ctx ctx' : CompileContext) :
    List Component → List Component → Prop :=
  List.Forall₂ fun c c' =>
    Plain ctx ctx' c ∧ c.Alike (Arguments.Completed n n') (fun _ _ => True) c'

/-- A compound ends alike if its components do. -/
theorem compound_alike (hnested : nested.Alike n n' nested') (hctx : ctx.inHas = ctx'.inHas)
    (last : Bool) {cs cs' : List Component} (h : Components n n' ctx ctx' cs cs') :
    Alike Eq (compound nested ctx whole last cs) (compound nested' ctx' whole' last cs') := by
  have hfold := foldlM h
    (fun d _ _ hc => component_alike hnested hctx d hc.2 hc.1 whole whole') {}
  refine bind hfold ?_
  rintro d _ rfl
  dsimp only
  split
  · exact throw_bind _ _ _ _
  · refine bind (Alike.pushCompound d) ?_
    rintro id _ rfl
    exact pure rfl

/-! ### Complex selectors -/

theorem combinator_alike (mark : CombinatorMark) :
    Alike Eq (combinator mark) (combinator mark) := by
  cases mark with
  | column => exact throw _ _
  | _ => exact pure rfl

theorem leading_alike (mark : Option CombinatorMark) :
    Alike Eq (mark.mapM combinator) (mark.mapM combinator) := by
  cases mark with
  | none => exact pure rfl
  | some mark => exact map (combinator_alike mark) fun _ _ h => congrArg some h

theorem isEmpty_of_forall₂ {α β : Type} {R : α → β → Prop} {xs : List α} {ys : List β}
    (h : List.Forall₂ R xs ys) : xs.isEmpty = ys.isEmpty := by
  cases h <;> rfl

/-- The compounds behind the first end alike. -/
theorem joined_alike (hnested : nested.Alike n n' nested') (hctx : ctx.inHas = ctx'.inHas)
    {marks marks' : List (Combinator × List Component)}
    (h : List.Forall₂ (fun x x' => x.1 = x'.1 ∧ Components n n' ctx ctx' x.2 x'.2) marks marks') :
    Alike Eq (joined nested ctx whole marks) (joined nested' ctx' whole' marks') := by
  induction h with
  | nil => exact pure rfl
  | @cons mark mark' more more' hmark hmore ih =>
      obtain ⟨q, cs⟩ := mark
      obtain ⟨_, cs'⟩ := mark'
      obtain ⟨rfl, hcs⟩ := hmark
      unfold joined
      rw [← isEmpty_of_forall₂ hmore]
      refine bind (compound_alike hnested hctx more.isEmpty hcs) ?_
      rintro ⟨id, slotted⟩ _ rfl
      refine bind ih ?_
      rintro rest _ rfl
      exact pure rfl

theorem direction_of_wordless {a a' : Arena} (h : a.wordless = a'.wordless) :
    direction a = direction a' := by
  funext relative first joined
  unfold direction Arena.compound
  rw [Arena.compounds_of_wordless h]

/-- **A complex selector** compiles to the same parts, in an argument or not, where it holds no
pseudo-element. -/
theorem complex_alike (hnested : nested.Alike n n' nested') (hctx : ctx.inHas = ctx'.inHas)
    (relative : Bool) {node node' : ComplexNode} (h : node.Completed n n' node')
    (hplain : node.hasPseudoElement = true → ctx.nested = true ∧ ctx'.nested = true) :
    Alike Eq (complex nested ctx relative node) (complex nested' ctx' relative node') := by
  have hcomponent : ∀ c ∈ node.first ++ node.joined.flatMap Prod.snd, Plain ctx ctx' c :=
    fun c hc hpseudo => hplain (List.any_eq_true.mpr ⟨c, hc, hpseudo⟩)
  have hfirst : Components n n' ctx ctx' node.first node'.first :=
    (List.forall₂_and_left _ _).mpr ⟨fun c hc => hcomponent c (List.mem_append_left _ hc), h.first⟩
  have hjoined : List.Forall₂ (fun x x' => x.1 = x'.1 ∧ Components n n' ctx ctx' x.2 x'.2)
      node.joined node'.joined := by
    have hplains : ∀ x ∈ node.joined, ∀ c ∈ x.2, Plain ctx ctx' c := fun x hx c hc =>
      hcomponent c (List.mem_append_right _ (List.mem_flatMap.mpr ⟨x, hx, hc⟩))
    refine ((List.forall₂_and_left _ _).mpr ⟨hplains, h.joined⟩).imp fun x x' hx => ?_
    exact ⟨hx.2.1, (List.forall₂_and_left _ _).mpr ⟨hx.1, hx.2.2⟩⟩
  unfold complex
  rw [← h.leading]
  refine bind (leading_alike node.leading) ?_
  rintro leading _ rfl
  have hmarks := mapM (W := fun x x' => x.1 = x'.1 ∧ Components n n' ctx ctx' x.2 x'.2)
    (f := fun x : CombinatorMark × List Component => do return (← combinator x.1, x.2))
    (g := fun x : CombinatorMark × List Component => do return (← combinator x.1, x.2))
    hjoined fun x x' hx => by
      obtain ⟨mark, cs⟩ := x
      obtain ⟨_, cs'⟩ := x'
      obtain ⟨rfl, hcs⟩ := hx
      refine bind (combinator_alike mark) ?_
      rintro q _ rfl
      exact pure ⟨rfl, hcs⟩
  refine bind hmarks fun marks marks' hmarks' => ?_
  rw [← isEmpty_of_forall₂ hmarks']
  refine bind (compound_alike hnested hctx marks.isEmpty hfirst) ?_
  rintro ⟨first, slotted⟩ _ rfl
  refine bind (joined_alike hnested hctx hmarks') ?_
  rintro rest _ rfl
  dsimp only
  refine bind Alike.get fun a a' ha => ?_
  rw [direction_of_wordless ha]
  exact Alike.pushComplex rfl

/-! ### Lists -/

/-- A run and one that completes it are read alike, or both fail to be read. -/
theorem ofTokens_alike (source source' : List Char) (h : Completes [] ts us)
    (hlength : ts.length ≤ n) (hlength' : us.length ≤ n') :
    Alike (ComplexNode.Completed n n')
      (forgivenMember.liftExcept (ComplexNode.ofTokens source false ts))
      (forgivenMember.liftExcept (ComplexNode.ofTokens source' false us)) := by
  have hread := ComplexNode.read_completed source source' false h hlength hlength'
  unfold ComplexNode.ofTokens
  generalize ComplexNode.read? source false (trim ts) = x,
    ComplexNode.read? source' false (trim us) = y at hread
  cases hread with
  | none => exact throw _ _
  | some hnode => exact pure hnode

/-- A forgiven member ends alike, or it is left out in both. -/
theorem forgivenMember_alike (hnested : nested.Alike n n' nested') (hctx : ctx.inHas = ctx'.inHas)
    (hin : ctx.nested = true) (hin' : ctx'.nested = true) (h : Completes [] ts us)
    (hlength : ts.length ≤ n) (hlength' : us.length ≤ n') :
    Alike Eq (forgivenMember nested ctx ts) (forgivenMember nested' ctx' us) := by
  have hempty : (trim ts).isEmpty = (trim us).isEmpty := by
    have htrim := Syntax.completed_trim h hlength hlength'
    obtain ⟨stack, -, hcompletes⟩ := htrim.completes
    cases hts : trim ts with
    | nil =>
        rw [hts] at htrim
        rw [htrim.eq_nil]
    | cons t r =>
        rw [hts] at hcompletes
        generalize trim us = us' at hcompletes
        cases hcompletes
        rfl
  unfold forgivenMember
  rw [← hempty]
  split
  · exact pure rfl
  · have hnode := ofTokens_alike ctx.source ctx'.source h hlength hlength'
    refine forgive (bind hnode fun node node' hnode => ?_) (pure rfl)
    refine map (complex_alike hnested hctx false hnode fun _ => ⟨hin, hin'⟩) ?_
    rintro id _ rfl
    rfl

/-- Whether a list is a single compound is the same for the completed one. -/
theorem isCompound_of_completed {nodes nodes' : List ComplexNode}
    (h : List.Forall₂ (ComplexNode.Completed n n') nodes nodes') :
    listWith.isCompound nodes = listWith.isCompound nodes' := by
  cases h with
  | nil => rfl
  | @cons node node' more more' hnode hmore =>
      cases hmore with
      | nil =>
          change node.joined.isEmpty = node'.joined.isEmpty
          exact isEmpty_of_forall₂ hnode.joined
      | cons => rfl

/-- The members of a list that is not forgiving. -/
theorem nodes_alike (hnested : nested.Alike n n' nested') (hctx : ctx.inHas = ctx'.inHas)
    (relative : Bool) {nodes nodes' : List ComplexNode}
    (h : List.Forall₂ (ComplexNode.Completed n n') nodes nodes')
    (hplain : ∀ node ∈ nodes, node.hasPseudoElement = true →
      ctx.nested = true ∧ ctx'.nested = true) :
    Alike Eq (nodes.mapM (complex nested ctx relative) >>= pushList)
      (nodes'.mapM (complex nested' ctx' relative) >>= pushList) := by
  have hcomplexes := mapM ((List.forall₂_and_left _ _).mpr ⟨hplain, h⟩)
    fun node node' hnode => complex_alike hnested hctx relative hnode.2 hnode.1
  refine bind hcomplexes fun ids ids' hids => ?_
  rw [List.forall₂_eq_eq_eq] at hids
  subst hids
  exact Alike.pushList ids

/-- **A list** compiles to the same parts if the lists inside of it do. -/
theorem listWith_alike (hnested : nested.Alike n n' nested') :
    ListCompiler.Alike (n + 1) (n' + 1) (listWith nested) (listWith nested') := by
  intro ctx ctx' mode ts us text text' hctx hin hin' h hlength hlength'
  have hmembers := h.members (Nat.le_of_lt_succ hlength) (Nat.le_of_lt_succ hlength')
  unfold listWith
  split
  · refine bind (filterMapM hmembers fun m m' hm => ?_) ?_
    · exact forgivenMember_alike hnested hctx hin hin' hm.1 hm.2.1 hm.2.2
    · rintro ids _ rfl
      exact Alike.pushList ids
  · unfold ComplexNode.listOfTokens
    rcases ComplexNode.mapM_ofTokens_completed ctx.source ctx'.source (mode = .relative) hmembers
      with ⟨e, e', hts, hus⟩ | ⟨nodes, nodes', hts, hus, hnodes⟩
    · rw [hts, hus]
      exact throw _ _
    · rw [hts, hus]
      dsimp only
      rw [← isCompound_of_completed hnodes]
      split
      · exact throw_bind _ _ _ _
      · exact nodes_alike hnested hctx (mode = .relative) hnodes fun _ _ _ => ⟨hin, hin'⟩

/-- **Lists that complete each other compile alike**, with any numbers of levels that are enough. -/
theorem list_alike (level level' : Nat) :
    ListCompiler.Alike level level' (list level) (list level') := by
  induction level generalizing level' with
  | zero =>
      intro _ _ _ ts _ _ _ _ _ _ _ hlength
      exact absurd hlength (Nat.not_lt_zero _)
  | succ level ih =>
      cases level' with
      | zero =>
          intro _ _ _ _ us _ _ _ _ _ _ _ hlength'
          exact absurd hlength' (Nat.not_lt_zero _)
      | succ level' => exact listWith_alike (ih level')

end Compile

end Selectors

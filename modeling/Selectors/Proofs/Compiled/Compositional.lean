import Selectors.Proofs.Compiled.Uniform
import Selectors.Proofs.Compiled.Words

/-!
# What compiling gives does not depend on the arena

Each function of the compiler is run from two arenas at once, with two compilers of the lists
inside.  It fails in both runs in the same way, or what it gives expands to the same, as long as
this holds of the lists inside.  By induction on the levels of nesting it holds of all lists that
have fewer tokens than there are levels, so that the number of levels does not count either.

* `ListCompiler.Uniform` is the statement for the lists inside.
* `Compile.complex_twin` is about complex selectors, and `Compile.list_uniform` is the result.
-/

namespace Selectors

/-- Two compilers of lists that compile less than `n` tokens as one, from all closed arenas. -/
def ListCompiler.Uniform (n : Nat) (nested nested' : ListCompiler) : Prop :=
  ∀ ctx mode tokens text a a', tokens.length < n →
    Compile.Twin (Part.argument mode) a a' (nested ctx mode tokens text)
      (nested' ctx mode tokens text)

/-- What is read of a compound, with what it refers to. -/
def Part.draft : Part Compile.Draft
    (List (SimpleSelector × Option ListTree) × Option String × Option (CompoundTree ListTree)) where
  Stored a d := test.many.Stored a d.simples ∧ compound.optional.Stored a d.slotted
  expand a d :=
    (test.many.expand a d.simples, d.pseudoElement, compound.optional.expand a d.slotted)
  lasts ha hgrows hd := by
    obtain ⟨htests, htests'⟩ := test.many.lasts ha hgrows hd.1
    obtain ⟨hslotted, hslotted'⟩ := compound.optional.lasts ha hgrows hd.2
    exact ⟨⟨htests, hslotted⟩, by rw [htests', hslotted']⟩

namespace Compile

open Twin

variable {n : Nat} {nested nested' : ListCompiler} {ctx : CompileContext} {a a' b b' : Arena}
  {args : Option Arguments}

/-! ### Pseudo-classes -/

theorem need_twin {α : Type} (e : SelectorError) (o : Option α) :
    Twin (Part.plain α) a a' (need e o) (need e o) := by
  cases o with
  | none => exact throw e
  | some v => exact pure (same_plain v)

/-- A pseudo-class without a list. -/
theorem same_of_no_list {p : PseudoClass} (hp : p.nestedList? = none) :
    Part.pseudoClass.Same a a' p p where
  stored l hl := by
    change p.nestedList? = some l at hl
    rw [hp] at hl
    cases hl
  stored' l hl := by
    change p.nestedList? = some l at hl
    rw [hp] at hl
    cases hl
  expand := by
    change (_, p.nestedList?.map a.expand) = (_, p.nestedList?.map a'.expand)
    rw [hp]
    rfl

/-- Pseudo-classes that are made from lists. -/
structure MadeFrom (make : ListId → PseudoClass) : Prop where
  nested : ∀ l, (make l).nestedList? = some l
  blank : ∀ l l', (make l).blank = (make l').blank

/-- Pseudo-classes made from lists that expand to the same expand to the same. -/
theorem MadeFrom.same {make : ListId → PseudoClass} (h : MadeFrom make) {mode : ListMode}
    {l l' : ListId} (hl : (Part.argument mode).Same a a' l l') :
    Part.pseudoClass.Same a a' (make l) (make l') where
  stored k hk := by
    obtain rfl : l = k := Option.some.inj ((h.nested l).symm.trans hk)
    exact hl.stored.1
  stored' k hk := by
    obtain rfl : l' = k := Option.some.inj ((h.nested l').symm.trans hk)
    exact hl.stored'.1
  expand := by
    change (SimpleSelector.pseudo (make l).blank, (make l).nestedList?.map a.expand) =
      (SimpleSelector.pseudo (make l').blank, (make l').nestedList?.map a'.expand)
    rw [h.blank l l', h.nested, h.nested]
    exact congrArg (fun tree => (_, some tree)) hl.expand

/-- A pseudo-class with a list runs as one if its list does. -/
theorem ofList_twin (hnested : nested.Uniform n nested') (inner : CompileContext) (mode : ListMode)
    {tokens : List Token} (hlength : tokens.length < n) (text : String)
    {make : ListId → PseudoClass} (hmake : MadeFrom make) :
    Twin Part.pseudoClass a a' (do return make (← nested inner mode tokens text))
      (do return make (← nested' inner mode tokens text)) :=
  bind (hnested inner mode tokens text a a' hlength) fun _ _ _ _ _ hl => pure (hmake.same hl)

/-- A counting pseudo-class runs as one, with its list or without. -/
theorem nth_twin (hnested : nested.Uniform n nested') (kind : NthKind) {tokens : List Token}
    (hlength : tokens.length < n) (text : String) :
    Twin Part.pseudoClass a a' (nth nested ctx kind tokens text)
      (nth nested' ctx kind tokens text) := by
  have hmake : ∀ formula, MadeFrom (.nth kind formula ∘ some) :=
    fun _ => ⟨fun _ => rfl, fun _ _ => rfl⟩
  unfold nth
  dsimp only
  split
  · exact bind_plain (need_twin _ _) fun formula b b' _ => pure (same_of_no_list rfl)
  · rename_i before after hcut
    have hafter : after.length < tokens.length := by
      split at hcut
      · cases hcut
      · obtain ⟨word, -, rfl⟩ := exists_of_cutAtOf? hcut
        rw [List.length_append, List.length_cons]
        omega
    exact bind_plain (need_twin _ _) fun formula b b' _ =>
      ofList_twin hnested _ _ (Nat.lt_trans hafter hlength) _ (hmake formula)

/-- A pseudo-class with a known name.  Without arguments there is no list in it. -/
theorem namedPseudoClass_twin (hnested : nested.Uniform n nested') (kind : PseudoClassName)
    (name : String) (hargs : ∀ x ∈ args, x.tokens.length < n)
    (hallows : kind.allows args.isSome = true) (text : String) :
    Twin Part.pseudoClass a a' (namedPseudoClass nested ctx kind name args text)
      (namedPseudoClass nested' ctx kind name args text) := by
  cases args with
  | none =>
      cases kind with
      | edge k => exact pure (same_of_no_list rfl)
      | host => exact pure (same_of_no_list rfl)
      | state s => exact pure (same_of_no_list rfl)
      | unevaluated s => exact pure (same_of_no_list rfl)
      | _ => cases hallows
  | some x =>
      have hlength := hargs x rfl
      have hlogical : ∀ op, MadeFrom (.logical op) := fun op => ⟨fun _ => rfl, fun _ _ => rfl⟩
      have hhost : MadeFrom (.host ∘ some) := ⟨fun _ => rfl, fun _ _ => rfl⟩
      have hhostContext : MadeFrom .hostContext := ⟨fun _ => rfl, fun _ _ => rfl⟩
      cases kind with
      | logical op =>
          cases op with
          | is => exact ofList_twin hnested _ _ hlength _ (hlogical .is)
          | whereAny => exact ofList_twin hnested _ _ hlength _ (hlogical .whereAny)
          | not => exact ofList_twin hnested _ _ hlength _ (hlogical .not)
          | has =>
              unfold namedPseudoClass
              dsimp only
              split
              · exact throw_bind _ _ _
              · exact ofList_twin hnested _ _ hlength _ (hlogical .has)
      | nth kind => exact nth_twin hnested kind hlength text
      | edge kind => exact pure (same_of_no_list rfl)
      | host => exact ofList_twin hnested _ _ hlength _ hhost
      | hostContext => exact ofList_twin hnested _ _ hlength _ hhostContext
      | dir => exact bind_plain (need_twin _ _) fun word b b' _ => pure (same_of_no_list rfl)
      | lang => exact bind_plain (need_twin _ _) fun ranges b b' _ => pure (same_of_no_list rfl)
      | state s => exact pure (same_of_no_list rfl)
      | unevaluated s => exact pure (same_of_no_list rfl)

/-- A pseudo-class runs as one, or it fails in both runs for its name. -/
theorem pseudoClass_twin (hnested : nested.Uniform n nested') (name : String)
    (hargs : ∀ x ∈ args, x.tokens.length < n) (text : String) :
    Twin Part.pseudoClass a a' (pseudoClass nested ctx name args text)
      (pseudoClass nested' ctx name args text) := by
  unfold pseudoClass
  split
  · split
    · exact pure (same_of_no_list rfl)
    · exact throw _
  · split
    · exact namedPseudoClass_twin hnested _ name hargs ‹_› text
    · exact throw _

/-! ### Compounds -/

/-- Two optional values that are the same are there both, or neither is. -/
theorem isSome_eq_of_same {α β : Type} {E : Part α β} {o o' : Option α}
    (h : E.optional.Same a a' o o') : o.isSome = o'.isSome := by
  have hmap : o.map (E.expand a) = o'.map (E.expand a') := h.expand
  rw [← Option.isSome_map, hmap, Option.isSome_map]

/-- The three components of a draft. -/
theorem draft_same_iff {d d' : Draft} : Part.draft.Same a a' d d' ↔
    Part.test.many.Same a a' d.simples d'.simples ∧ d.pseudoElement = d'.pseudoElement ∧
      Part.compound.optional.Same a a' d.slotted d'.slotted := by
  constructor
  · intro h
    obtain ⟨htests, hrest⟩ := Prod.mk.inj h.expand
    obtain ⟨hpseudo, hslotted⟩ := Prod.mk.inj hrest
    exact ⟨⟨h.stored.1, h.stored'.1, htests⟩, hpseudo, ⟨h.stored.2, h.stored'.2, hslotted⟩⟩
  · intro h
    obtain ⟨htests, hpseudo, hslotted⟩ := h
    refine ⟨⟨htests.stored, hslotted.stored⟩, ⟨htests.stored', hslotted.stored'⟩, ?_⟩
    exact Prod.ext htests.expand (Prod.ext hpseudo hslotted.expand)

/-- Drafts that are the same are the same with one more test. -/
theorem Draft.add_same {d d' : Draft} (hd : Part.draft.Same a a' d d') {s s' : SimpleSelector}
    (hs : Part.test.Same a a' s s') : Part.draft.Same a a' (d.add s) (d'.add s') := by
  obtain ⟨htests, hpseudo, hslotted⟩ := draft_same_iff.mp hd
  have hnone : d.pseudoElement.isNone = d'.pseudoElement.isNone := by rw [hpseudo]
  unfold Draft.add
  rw [← hnone]
  split
  · exact draft_same_iff.mpr ⟨same_append htests (same_cons hs same_nil), hpseudo, hslotted⟩
  · exact hd

/-- What two runs know of arenas that they compare. -/
theorem Twin.assume {α β : Type} {E : Part α β} {x y : Compile α}
    (h : a.Closed → a'.Closed → Twin E a a' x y) : Twin E a a' x y :=
  fun ha ha' => h ha ha' ha ha'

/-- Looking at the arena: the two runs go on with the two arenas. -/
theorem Twin.bind_get {α β : Type} {E : Part α β} {f g : Arena → Compile α}
    (h : Twin E a a' (f a) (g a')) : Twin E a a' (get >>= f) (get >>= g) := h

/-- A list that was read as one compound has a first compound, which expands to that of its
expansion. -/
theorem firstCompound_same (ha : a.Closed) (ha' : a'.Closed) {l l' : ListId}
    (h : (Part.argument .compound).Same a a' l l') :
    Part.compound.Same a a' (firstCompound a l) (firstCompound a' l') := by
  obtain ⟨hl, hmember⟩ := h.stored
  obtain ⟨hl', hmember'⟩ := h.stored'
  have hexpand : a.expand l = a'.expand l' := h.expand
  rw [ha.expand_eq hl, ha'.expand_eq hl'] at hexpand
  have hmembers := congrArg ListTree.members hexpand
  have hlists := ha.lists hl
  have hlists' := ha'.lists hl'
  unfold firstCompound
  generalize (a.list l).complexes = cs at hmembers hmember hlists
  generalize (a'.list l').complexes = cs' at hmembers hmember' hlists'
  cases cs with
  | nil => exact absurd rfl (hmember rfl)
  | cons c cs =>
      cases cs' with
      | nil => exact absurd rfl (hmember' rfl)
      | cons c' cs' =>
          have hc : a.expandComplex c = a'.expandComplex c' := (List.cons.inj hmembers).1
          exact ⟨ha.complexes (hlists c List.mem_cons_self) _ List.mem_cons_self,
            ha'.complexes (hlists' c' List.mem_cons_self) _ List.mem_cons_self,
            congrArg ComplexTree.first hc⟩

/-- A pseudo-element runs as one, with its list in front of it. -/
theorem pseudoElement_twin (hnested : nested.Uniform n nested') {d d' : Draft}
    (hd : Part.draft.Same a a' d d') (name : String) (hargs : ∀ x ∈ args, x.tokens.length < n)
    (text : String) :
    Twin Part.draft a a' (pseudoElement nested ctx d name args text)
      (pseudoElement nested' ctx d' name args text) := by
  unfold pseudoElement
  dsimp only
  split
  · exact throw_bind _ _ _
  refine bind_plain (need_twin _ _) fun kind b b' hlater => ?_
  have hkept := hlater.same hd
  split
  · exact throw_bind _ _ _
  rename_i hallows
  split
  · rename_i hslotted
    have hlength : (args.elim [] Arguments.tokens).length < n := by
      cases args with
      | none =>
          rw [hslotted] at hallows
          exact absurd rfl hallows
      | some x => exact hargs x rfl
    refine bind (hnested _ _ _ _ b b' hlength) fun l l' c c' hlater' hl => ?_
    obtain ⟨htests, hpseudo, -⟩ := draft_same_iff.mp (hlater'.same hkept)
    refine Twin.bind_get (Twin.assume fun hc hc' => pure ?_)
    exact draft_same_iff.mpr ⟨htests, hpseudo, same_some (firstCompound_same hc hc' hl)⟩
  · obtain ⟨htests, hpseudo, hslotted⟩ := draft_same_iff.mp hkept
    exact pure (draft_same_iff.mpr ⟨htests, congrArg (Option.or · _) hpseudo, hslotted⟩)

/-- A component runs as one in drafts that are the same. -/
theorem component_twin (hnested : nested.Uniform n nested') (whole : String) {d d' : Draft}
    (hd : Part.draft.Same a a' d d') {c : Component} (hc : c.Within n) :
    Twin Part.draft a a' (component nested ctx whole d c)
      (component nested' ctx whole d' c) := by
  have hplain : ∀ {s : SimpleSelector}, s.nestedList? = none →
      Twin Part.draft a a' (Pure.pure (d.add s)) (Pure.pure (d'.add s)) := by
    intro s hs
    have hnone : ∀ l, s.nestedList? ≠ some l := fun l hl => by
      rw [hs] at hl
      cases hl
    refine pure (Draft.add_same hd ⟨fun l hl => absurd hl (hnone l),
      fun l hl => absurd hl (hnone l), ?_⟩)
    change (s.blank, s.nestedList?.map a.expand) = (s.blank, s.nestedList?.map a'.expand)
    rw [hs]
    rfl
  unfold component
  dsimp only
  rw [isSome_eq_of_same (draft_same_iff.mp hd).2.2]
  split
  · exact throw_bind _ _ _
  cases c with
  | pseudoClass name args text =>
      refine bind (pseudoClass_twin hnested name hc text) fun p p' b b' hlater hp => ?_
      exact pure (Draft.add_same (hlater.same hd) ⟨hp.stored, hp.stored', hp.expand⟩)
  | pseudoElement name args oneColon text => exact pseudoElement_twin hnested hd name hc text
  | _ => exact hplain rfl

/-- A compound with the steps to what is in its slot. -/
theorem compound_twin (hnested : nested.Uniform n nested') (whole : String) (last : Bool)
    {components : List Component} (hcs : ∀ c ∈ components, c.Within n) :
    Twin (Part.compound.pair Part.steps) a a' (compound nested ctx whole last components)
      (compound nested' ctx whole last components) := by
  have hempty : Part.draft.Same a a' {} {} := draft_same_iff.mpr ⟨same_nil, rfl, same_none⟩
  have hfold := Twin.foldlM (f := component nested ctx whole) (g := component nested' ctx whole)
    (fun c hc d d' b b' hd => component_twin hnested whole hd (hcs c hc)) hempty
  refine bind hfold fun d d' b b' _ hd => ?_
  obtain ⟨htests, hpseudo, hslotted⟩ := draft_same_iff.mp hd
  dsimp only
  rw [hpseudo, isSome_eq_of_same hslotted]
  split
  · exact throw_bind _ _ _
  refine bind (Twin.pushCompound htests hpseudo) fun id id' c c' hlater hid => pure ?_
  refine same_pair hid ?_
  have hkept := hlater.same hslotted
  generalize d.slotted = o, d'.slotted = o' at hkept
  cases o with
  | none =>
      cases o' with
      | none => exact same_nil
      | some inner' => cases isSome_eq_of_same hkept
  | some inner =>
      cases o' with
      | none => cases isSome_eq_of_same hkept
      | some inner' =>
          have hinner : Part.compound.Same c c' inner inner' :=
            ⟨hkept.stored inner rfl, hkept.stored' inner' rfl, Option.some.inj hkept.expand⟩
          exact same_cons (same_pair (same_plain _) hinner) same_nil

/-! ### Complex selectors -/

theorem combinator_twin (mark : CombinatorMark) :
    Twin (Part.plain Combinator) a a' (combinator mark) (combinator mark) := by
  cases mark with
  | column => exact throw _
  | _ => exact pure (same_plain _)

theorem leading_twin (mark : Option CombinatorMark) :
    Twin (Part.plain (Option Combinator)) a a' (mark.mapM combinator) (mark.mapM combinator) := by
  cases mark with
  | none => exact pure (same_plain none)
  | some mark =>
      refine map (combinator_twin mark) fun q q' b b' _ hq => ?_
      obtain rfl : q = q' := hq.expand
      exact same_plain (some q)

/-- Compounds after the first, of which no argument is too long. -/
abbrev WithinSteps (n : Nat) (marks : List (Combinator × List Component)) : Prop :=
  ∀ step ∈ marks, ∀ c ∈ step.2, c.Within n

theorem marks_twin {marks : List (CombinatorMark × List Component)}
    (hmarks : ∀ step ∈ marks, ∀ c ∈ step.2, c.Within n) :
    Twin (Part.known (WithinSteps n)) a a'
      (marks.mapM fun (mark, components) => do return (← combinator mark, components))
      (marks.mapM fun (mark, components) => do return (← combinator mark, components)) := by
  have hmany : Twin
      (Part.known fun step : Combinator × List Component => ∀ c ∈ step.2, c.Within n).many a a'
      (marks.mapM fun (mark, components) => do return (← combinator mark, components))
      (marks.mapM fun (mark, components) => do return (← combinator mark, components)) := by
    refine Twin.mapM fun mark hmark b b' => ?_
    exact bind_plain (combinator_twin mark.1) fun q c c' _ =>
      pure ⟨hmarks mark hmark, hmarks mark hmark, rfl⟩
  refine hmany.weaken fun vs vs' b b' hvs => ⟨hvs.stored, hvs.stored', ?_⟩
  have hmap := hvs.expand
  change vs.map id = vs'.map id at hmap
  rwa [List.map_id, List.map_id] at hmap

/-- The compounds behind the first run as one. -/
theorem joined_twin (hnested : nested.Uniform n nested') (whole : String)
    {marks : List (Combinator × List Component)} (hmarks : WithinSteps n marks) :
    Twin Part.steps a a' (joined nested ctx whole marks) (joined nested' ctx whole marks) := by
  induction marks generalizing a a' with
  | nil => exact pure same_nil
  | cons mark more ih =>
      obtain ⟨q, components⟩ := mark
      obtain ⟨hcs, hmore⟩ := List.forall_mem_cons.mp hmarks
      refine bind (compound_twin hnested whole more.isEmpty hcs) fun v v' b b' _ hv => ?_
      obtain ⟨id, slotted⟩ := v
      obtain ⟨id', slotted'⟩ := v'
      refine bind (ih hmore) fun rest rest' c c' hlater hrest => pure ?_
      obtain ⟨hid, hslotted⟩ := same_pair_iff.mp (hlater.same hv)
      exact same_append (same_cons (same_pair (same_plain q) hid) hslotted) hrest

/-- Where a selector is followed from is told from the expansion of its parts. -/
theorem direction_eq_of_same (relative : Bool) {first first' : CompoundId}
    {joined joined' : List (Combinator × CompoundId)}
    (hfirst : Part.compound.Same a a' first first')
    (hjoined : Part.steps.Same a a' joined joined') :
    direction a relative first joined = direction a' relative first' joined' := by
  have hanchored : (a.compound first).simples.any isId =
      (a'.compound first').simples.any isId := by
    have hid : ∀ (c : Arena) (d : CompoundId),
        (c.compound d).simples.any isId = (c.expandCompound d).tests.any (isId ·.1) := by
      intro c d
      refine Eq.trans ?_ List.any_map.symm
      refine congrArg _ (funext fun s => ?_)
      cases s <;> rfl
    rw [hid, hid]
    exact congrArg (fun tree => tree.tests.any (isId ·.1)) hfirst.expand
  have hmarks : joined.map Prod.fst = joined'.map Prod.fst :=
    map_eq_of_same hjoined (g := Prod.fst) (fun _ => rfl) fun _ => rfl
  have hslot : (joined.any (·.1 == .slot)) = joined'.any (·.1 == .slot) :=
    any_eq_of_same hjoined (q := (·.1 == .slot)) (fun _ => rfl) fun _ => rfl
  have hempty : joined.isEmpty = joined'.isEmpty := by
    rw [← List.isEmpty_map (f := Prod.fst), hmarks, List.isEmpty_map]
  unfold direction
  dsimp only
  rw [hanchored, hslot, hempty]

/-- **A complex selector is compiled as one from all arenas.** -/
theorem complex_twin (hnested : nested.Uniform n nested') (relative : Bool) {node : ComplexNode}
    (hnode : node.Within n) :
    Twin Part.complex a a' (complex nested ctx relative node)
      (complex nested' ctx relative node) := by
  refine bind_plain (leading_twin node.leading) fun leading a₁ a₁' _ => ?_
  refine bind_known (marks_twin hnode.joined) fun marks a₂ a₂' hmarks _ => ?_
  refine bind (compound_twin hnested node.text marks.isEmpty hnode.first)
    fun v v' b b' _ hv => ?_
  obtain ⟨first, slotted⟩ := v
  obtain ⟨first', slotted'⟩ := v'
  refine bind (joined_twin hnested node.text hmarks) fun rest rest' c c' hlater hrest => ?_
  obtain ⟨hfirst, hslotted⟩ := same_pair_iff.mp (hlater.same hv)
  have hjoined := same_append hslotted hrest
  exact Twin.bind_get (Twin.pushComplex hfirst hjoined rfl rfl
    (direction_eq_of_same relative hfirst hjoined))

/-! ### Lists -/

/-- A member that was read, compiled by itself. -/
def member (nested : ListCompiler) (ctx : CompileContext) (relative : Bool) (tokens : List Token) :
    Compile ComplexId := do
  let node ← forgivenMember.liftExcept (ComplexNode.ofTokens ctx.source relative tokens)
  complex nested ctx relative node

/-- A member runs as one if its list is no longer than the levels go. -/
theorem member_twin (hnested : nested.Uniform n nested') (relative : Bool) {tokens : List Token}
    (hlength : tokens.length ≤ n) :
    Twin Part.complex a a' (member nested ctx relative tokens)
      (member nested' ctx relative tokens) := by
  unfold member
  cases hread : ComplexNode.ofTokens ctx.source relative tokens with
  | error e => exact throw_bind _ _ _
  | ok node => exact complex_twin hnested relative (ComplexNode.ofTokens_within hread hlength)

/-- A member that is no blank is compiled by itself, and its failure is forgiven. -/
theorem forgivenMember_eq (tokens : List Token) :
    forgivenMember nested ctx tokens =
      if (Token.trim tokens).isEmpty then return none
      else tryCatch (some <$> member nested ctx false tokens) fun _ => return none := by
  unfold forgivenMember member
  simp only [map_bind]

/-- A forgiven member runs as one, or it is left out in both runs. -/
theorem forgivenMember_twin (hnested : nested.Uniform n nested') {tokens : List Token}
    (hlength : tokens.length ≤ n) :
    Twin Part.complex.optional a a' (forgivenMember nested ctx tokens)
      (forgivenMember nested' ctx tokens) := by
  rw [forgivenMember_eq, forgivenMember_eq]
  split
  · exact pure same_none
  · refine forgive ?_ fun b b' => pure same_none
    exact map (member_twin hnested false hlength) fun v v' c c' _ hv => same_some hv

/-- A list that is a single compound has a member. -/
theorem ne_nil_of_isCompound {nodes : List ComplexNode} (h : listWith.isCompound nodes = true) :
    nodes ≠ [] := by
  cases nodes with
  | nil => cases h
  | cons node nodes => exact List.cons_ne_nil node nodes

/-- Members that are all needed: there are as many as were read. -/
theorem mapM_returns_length {α β : Type} (f : α → Compile β) (xs : List α) :
    Returns (xs.mapM f) fun ys => ys.length = xs.length :=
  Returns.of_runs fun _ _ _ hrun => length_of_runFrom_mapM hrun

/-- **Lists**: no member is longer than its list, and the lists inside are shorter than their
member. -/
theorem listWith_uniform (hnested : nested.Uniform n nested') :
    ListCompiler.Uniform (n + 1) (listWith nested) (listWith nested') := by
  intro ctx mode tokens text a a' hlength
  have hmembers : ∀ m ∈ Token.splitList tokens, m.length ≤ n := fun m hm =>
    Nat.le_trans (Token.length_le_of_mem_splitList hm) (Nat.le_of_lt_succ hlength)
  unfold listWith
  split
  case isTrue hmode =>
    have hother : ∀ cs : List ComplexId, mode = .compound → cs ≠ [] := by
      intro cs h
      rw [hmode] at h
      cases h
    exact bind (Twin.filterMapM fun m hm b b' => forgivenMember_twin hnested (hmembers m hm))
      fun cs cs' b b' _ hcs => Twin.pushList hcs (hother cs) (hother cs')
  case isFalse hmode =>
    split
    · exact throw _
    rename_i nodes hread
    have hnodes : ∀ node ∈ nodes, node.Within n := fun node hnode =>
      ComplexNode.listOfTokens_within hread (Nat.le_of_lt_succ hlength) hnode
    dsimp only
    split
    · exact throw_bind _ _ _
    rename_i hcompound
    have hne : ∀ cs : List ComplexId, cs.length = nodes.length → mode = .compound → cs ≠ [] := by
      intro cs hlength hmode
      have hnodes : nodes ≠ [] := by
        refine ne_nil_of_isCompound ?_
        simpa [hmode] using hcompound
      rw [← List.length_pos_iff, hlength]
      exact List.length_pos_iff.mpr hnodes
    refine bind_of_returns
      (Twin.mapM fun node hnode b b' => complex_twin hnested _ (hnodes node hnode))
      (mapM_returns_length _ _) (mapM_returns_length _ _)
      fun cs cs' b b' _ hcs hlength hlength' => ?_
    exact Twin.pushList hcs (hne cs hlength) (hne cs' hlength')

/-- **Lists are compiled as one from all arenas**, with any numbers of levels that are enough. -/
theorem list_uniform (level level' : Nat) :
    ListCompiler.Uniform (min level level') (list level) (list level') := by
  induction level generalizing level' with
  | zero =>
      intro _ _ _ _ _ _ hlength
      rw [Nat.zero_min] at hlength
      exact absurd hlength (Nat.not_lt_zero _)
  | succ level ih =>
      cases level' with
      | zero =>
          intro _ _ _ _ _ _ hlength
          rw [Nat.min_zero] at hlength
          exact absurd hlength (Nat.not_lt_zero _)
      | succ level' =>
          rw [Nat.succ_min_succ]
          exact listWith_uniform (ih level')

end Compile

end Selectors

import Mathlib.Data.List.Nodup
import Selectors.Proofs.Compiled.Compiling

/-!
# Compiled arenas are well formed

What can be reached from the root of a compiled selector, list by list through arguments, has the
form that a reader of the selector expects: every reference finds its part, what is nested lies
before what it is nested in, relative selectors stand in `:has()` alone, slots and pseudo-elements
at the end of the members of the root, and only `:is()` and `:where()` may be empty.  While a
selector is compiled, what its parts look up was stored before.

* `Arena.WellFormed` collects the form, and `Compile.FindsParts` the lookups of the compiler.
* `compile_wellFormed` is the result for a whole text.
-/

namespace Selectors

namespace ComplexSelector

/-- The last compound is the subject. -/
theorem getElem?_subject (c : ComplexSelector) :
    c.compounds[c.compounds.length - 1]? = some c.subject := by
  unfold compounds subject
  rw [List.length_cons, Nat.add_sub_cancel, List.length_map]
  cases hjoined : c.joined.getLast? with
  | none =>
      rw [List.getLast?_eq_none_iff] at hjoined
      rw [hjoined]
      rfl
  | some step =>
      obtain ⟨more, hmore⟩ := List.getLast?_eq_some_iff.mp hjoined
      rw [hmore]
      simp

/-- On both sides of a combinator there is a compound. -/
theorem exists_beside {c : ComplexSelector} {i : Nat} (hi : i < c.combinators.length) :
    ∃ left right, c.compounds[i]? = some left ∧ c.compounds[i + 1]? = some right := by
  have hlength := c.length_compounds
  have hleft : i < c.compounds.length := by omega
  have hright : i + 1 < c.compounds.length := by omega
  exact ⟨_, _, List.getElem?_eq_getElem hleft, List.getElem?_eq_getElem hright⟩

end ComplexSelector

namespace Arena

variable {a : Arena} {root l : ListId}

/-! ### Rows that end well -/

/-- A slot comes last. -/
theorem EndsWell.slot_last {d : CompoundId} {steps : List (Combinator × CompoundId)}
    (h : a.EndsWell d steps) {i : Nat} (hi : (steps.map Prod.fst)[i]? = some .slot) :
    i + 1 = steps.length := by
  induction h generalizing i with
  | last d => cases hi
  | slot d inner =>
      cases i with
      | zero => rfl
      | succ i => cases hi
  | before hslot _ _ ih =>
      cases i with
      | zero => exact absurd (Option.some.inj hi) hslot
      | succ i => rw [List.length_cons, ih hi]

/-- A pseudo-element stands in the last compound or right before a slot that comes last. -/
theorem EndsWell.pseudoElement_last {d : CompoundId} {steps : List (Combinator × CompoundId)}
    (h : a.EndsWell d steps) {i : Nat} {e : CompoundId}
    (hi : (d :: steps.map Prod.snd)[i]? = some e) (he : ¬a.Bare e) :
    i = steps.length ∨
      (i + 1 = steps.length ∧ (steps.map Prod.fst).getLast? = some .slot) := by
  induction h generalizing i with
  | last d =>
      cases i with
      | zero => exact Or.inl rfl
      | succ i => cases hi
  | slot d inner =>
      match i with
      | 0 => exact Or.inr ⟨rfl, rfl⟩
      | 1 => exact Or.inl rfl
      | i + 2 => cases hi
  | @before d next q more _ hbare _ ih =>
      cases i with
      | zero =>
          cases hi
          exact absurd hbare he
      | succ i =>
          rcases ih hi with heq | ⟨heq, hlast⟩
          · exact Or.inl (by rw [List.length_cons, heq])
          · refine Or.inr ⟨by rw [List.length_cons, heq], ?_⟩
            rw [List.map_cons, List.getLast?_cons, hlast]
            rfl

/-! ### The form of an arena -/

/-- **A well-formed arena**: the form of all that is reached from the root. -/
structure WellFormed (a : Arena) (root : ListId) : Prop where
  /-- Every reference finds its part. -/
  lists : ∀ {l}, a.Reaches root l → l.index < a.lists.size
  complexes : ∀ {l}, a.Reaches root l → ∀ c ∈ (a.list l).complexes,
    c.index < a.complexes.size
  compounds : ∀ {l}, a.Reaches root l → ∀ c ∈ (a.list l).complexes,
    ∀ d ∈ (a.complex c).compounds, d.index < a.compounds.size
  /-- Lists further inside were stored earlier. -/
  smaller : ∀ {l inner}, a.Reaches root l → Relation.TransGen a.Nests l inner →
    inner.index < l.index
  /-- There is one compound more than there are combinators, so each of these stands between two,
  and there is a last one. -/
  lengths : ∀ {l}, a.Reaches root l → ∀ c ∈ (a.list l).complexes,
    (a.complex c).compounds ≠ [] ∧
      (a.complex c).combinators.length + 1 = (a.complex c).compounds.length
  beside : ∀ {l}, a.Reaches root l → ∀ c ∈ (a.list l).complexes,
    ∀ i < (a.complex c).combinators.length, ∃ left right,
      (a.complex c).compounds[i]? = some left ∧ (a.complex c).compounds[i + 1]? = some right
  subject : ∀ {l}, a.Reaches root l → ∀ c ∈ (a.list l).complexes,
    (a.complex c).compounds[(a.complex c).compounds.length - 1]? = some (a.complex c).subject
  /-- Each test is made once. -/
  order : ∀ {l}, a.Reaches root l → ∀ c ∈ (a.list l).complexes,
    ∀ d ∈ (a.complex c).compounds,
      (a.compound d).matchOrder.Perm (List.range (a.compound d).simples.length)
  /-- Relative selectors are the members of arguments of `:has()`. -/
  leading : ∀ {l}, a.Reaches root l → ∀ c ∈ (a.list l).complexes,
    ((a.complex c).leading.isSome = true ↔
      ∃ outer, a.Reaches root outer ∧ a.NestsAs .relative outer l)
  /-- A slot is the last combinator of a member of the root. -/
  slot : ∀ {l}, a.Reaches root l → ∀ c ∈ (a.list l).complexes, ∀ i,
    (a.complex c).combinators[i]? = some .slot →
      l = root ∧ i + 1 = (a.complex c).combinators.length
  /-- A pseudo-element stands in the subject of a member of the root, or before its slot. -/
  pseudoElement : ∀ {l}, a.Reaches root l → ∀ c ∈ (a.list l).complexes, ∀ i d,
    (a.complex c).compounds[i]? = some d → (a.compound d).pseudoElement.isSome = true →
      l = root ∧ (i + 1 = (a.complex c).compounds.length ∨
        (i + 2 = (a.complex c).compounds.length ∧
          (a.complex c).combinators.getLast? = some .slot))
  /-- Only the arguments of `:is()` and `:where()` may be empty. -/
  member : ∀ {l}, a.Reaches root l → (a.list l).complexes = [] →
    ∃ outer, a.Reaches root outer ∧ a.NestsAs .forgiving outer l

/-- A sound arena is well formed from a root that has members, none of them relative. -/
theorem Sound.wellFormed (ha : a.Sound) (hroot : root.index < a.lists.size)
    (hmember : (a.list root).complexes ≠ [])
    (hleading : ∀ c ∈ (a.list root).complexes, (a.complex c).leading = none) :
    a.WellFormed root where
  lists hl := ha.stored_of_reaches hroot hl
  complexes hl := ha.lists (ha.stored_of_reaches hroot hl)
  compounds hl c hc := (ha.complex_of_reaches hroot hl hc).compounds
  smaller _ hinner := ha.smaller_of_transGen hinner
  lengths _ c _ := ⟨List.cons_ne_nil _ _, (a.complex c).length_compounds.symm⟩
  beside _ _ _ _ hi := ComplexSelector.exists_beside hi
  subject _ c _ := (a.complex c).getElem?_subject
  order hl c hc d hd := (ha.compound_of_mem (ha.stored_of_reaches hroot hl) hc hd).order
  leading {l} hl c hc := by
    constructor
    · intro hsome
      rcases hl.eq_or_nestsAs with rfl | ⟨mode, outer, houter, hnests⟩
      · rw [hleading c hc] at hsome
        cases hsome
      · rw [(ha.argument hnests).leading c hc, decide_eq_true_iff] at hsome
        subst hsome
        exact ⟨outer, houter, hnests⟩
    · intro hhas
      obtain ⟨outer, -, hnests⟩ := hhas
      rw [(ha.argument hnests).leading c hc]
      rfl
  slot {l} hl c hc i hi := by
    rcases hl.eq_or_nestsAs with rfl | ⟨mode, outer, -, hnests⟩
    · refine ⟨rfl, ?_⟩
      rw [ComplexSelector.combinators, List.length_map]
      exact (ha.complex_of_reaches hroot hl hc).ends.slot_last hi
    · exact absurd (List.mem_of_getElem? hi) ((ha.argument hnests).slotFree c hc)
  pseudoElement {l} hl c hc i d hi hpseudo := by
    have hbare : ¬a.Bare d := by
      unfold Bare
      rw [← Option.isNone_iff_eq_none, ← Option.not_isSome, hpseudo]
      exact Bool.false_ne_true
    rcases hl.eq_or_nestsAs with rfl | ⟨mode, outer, -, hnests⟩
    · refine ⟨rfl, ?_⟩
      have hlength : (a.complex c).compounds.length = (a.complex c).joined.length + 1 := by
        rw [ComplexSelector.compounds, List.length_cons, List.length_map]
      have hends := (ha.complex_of_reaches hroot hl hc).ends
      rw [hlength]
      rcases hends.pseudoElement_last hi hbare with heq | ⟨heq, hlast⟩
      · exact Or.inl (congrArg (· + 1) heq)
      · exact Or.inr ⟨congrArg (· + 1) heq, hlast⟩
    · exact absurd ((ha.argument hnests).bare c hc d (List.mem_of_getElem? hi)) hbare
  member {l} hl hempty := by
    rcases hl.eq_or_nestsAs with rfl | ⟨mode, outer, houter, hnests⟩
    · exact absurd hempty hmember
    · by_cases hmode : mode = .forgiving
      · subst hmode
        exact ⟨outer, houter, hnests⟩
      · exact absurd hempty ((ha.argument hnests).member hmode)

/-- An arena as it is while parts are stored in it. -/
def Described (a : Arena) : Prop :=
  ∃ F : Routes, F.Describes a

end Arena

/-! ### Lookups of the compiler -/

namespace Compile

/-- **What the compiler looks up is stored**: parts that were compiled, also where the arena grew
from then on, since it stays described. -/
structure FindsParts (nested : ListCompiler) : Prop where
  grows : ∀ ctx relative node a, a.Described →
    a.Grows (runFrom (complex nested ctx relative node) a).2 ∧
      (runFrom (complex nested ctx relative node) a).2.Described
  /-- The list in `::slotted()` has a first member, and that a first compound. -/
  slotted : ∀ ctx tokens text a l a', ctx.nested = true → a.Described →
    runFrom (nested ctx .compound tokens text) a = (.ok l, a') →
      l.index < a'.lists.size ∧ ∃ c, (a'.list l).complexes[0]? = some c ∧
        c.index < a'.complexes.size ∧
          (a'.complex c).compounds[0]? = some (firstCompound a' l) ∧
            (firstCompound a' l).index < a'.compounds.size
  /-- Before a compound is stored the lists of its tests are. -/
  test : ∀ ctx name args text a p a', a.Described →
    runFrom (pseudoClass nested ctx name args text) a = (.ok p, a') →
      ∀ l, p.nestedList? = some l → l.index < a'.lists.size
  /-- Before a complex selector is stored its first compound is. -/
  first : ∀ ctx whole last components a v a', a.Described →
    runFrom (compound nested ctx whole last components) a = (.ok v, a') →
      v.1.index < a'.compounds.size
  /-- Before a list is stored its members are, with their compounds. -/
  member : ∀ ctx relative node a c a', a.Described →
    runFrom (complex nested ctx relative node) a = (.ok c, a') →
      c.index < a'.complexes.size ∧ ∀ d ∈ (a'.complex c).compounds, d.index < a'.compounds.size

/-- Every step of a sound compiler finds the parts that it refers to. -/
theorem findsParts {nested : ListCompiler} (hnested : nested.Sound) : FindsParts nested where
  grows ctx relative node a ha := by
    obtain ⟨F, hF⟩ := ha
    obtain ⟨hgrows, F', -, hF', -⟩ :=
      (complex_builds ctx hnested relative node [] a).extends_run hF trivial
    exact ⟨hgrows, F', hF'⟩
  slotted ctx tokens text a l a' hctx ha hrun := by
    obtain ⟨F, hF⟩ := ha
    obtain ⟨F', hF', hl⟩ := (hnested ctx .compound tokens text [] a hctx).exists_of_runFrom hF hrun
    have hfirst := firstCompound_fits ctx hF' hl
    refine ⟨hl.stored, ?_⟩
    unfold firstCompound at hfirst ⊢
    cases hmembers : (a'.list l).complexes with
    | nil => exact absurd hmembers (hl.member (by simp))
    | cons c more =>
        rw [hmembers] at hfirst
        have hc : c ∈ (a'.list l).complexes := hmembers ▸ List.mem_cons_self
        exact ⟨c, rfl, hF'.lists hl.stored c hc, rfl, hfirst.stored⟩
  test ctx name args text a p a' ha hrun l hl := by
    obtain ⟨F, hF⟩ := ha
    obtain ⟨F', -, hp⟩ :=
      (pseudoClass_builds (r := []) ctx hnested name args text a).exists_of_runFrom hF hrun
    exact hp.stored hl
  first ctx whole last components a v a' ha hrun := by
    obtain ⟨F, hF⟩ := ha
    obtain ⟨F', -, hv⟩ :=
      (compound_builds ctx hnested whole last components [] a).exists_of_runFrom hF hrun
    exact hv.compound.stored
  member ctx relative node a c a' ha hrun := by
    obtain ⟨F, hF⟩ := ha
    obtain ⟨F', hF', hc⟩ :=
      (complex_builds ctx hnested relative node [] a).exists_of_runFrom hF hrun
    exact ⟨hc.stored, (hF'.complexes hc.stored).compounds⟩

end Compile

/-- **A compiled arena is well formed**, and to compile it only stored parts were looked up. -/
theorem compile_wellFormed {text : String} {s : CompiledSelector} (hs : compile text = .ok s) :
    s.arena.WellFormed s.root ∧ ∀ level, Compile.FindsParts (Compile.list level) := by
  obtain ⟨F, hF, hroot, hmember, hleading⟩ := compile_builds hs
  exact ⟨hF.toSound.wellFormed hroot hmember hleading,
    fun level => Compile.findsParts (Compile.list_sound level)⟩

/-- A selector with a slot in the middle: its combinators are as written, and the compiled one is
well formed. -/
theorem compile_wellFormed_slotted :
    ∃ s, compile "a > b::slotted(:is(c))" = .ok s ∧
      (s.arena.complex ⟨2⟩).combinators = [.child, .slot] ∧ s.arena.WellFormed s.root ∧
        ∀ level, Compile.FindsParts (Compile.list level) := by
  let s := (compile "a > b::slotted(:is(c))").toOption.get (by decide +kernel)
  have hs : compile "a > b::slotted(:is(c))" = .ok s := by
    decide +kernel
  exact ⟨s, hs, by decide +kernel, compile_wellFormed hs⟩

end Selectors

import Selectors.Proofs.Compiled.Fits

/-!
# Compiled selectors are sound

Each function of the compiler is specified from the compiler of the lists inside: if that one builds
lists on any way that is wanted, so does the list around them.  By induction on the levels of
nesting every compiler of lists does, and a compiled selector has a description.

* `Compile.list_sound` says that every compiler of lists is sound.
* `compile_builds` is the result for a whole text, and `compile_describes` what matching uses of it.
-/

namespace Selectors

namespace Compile

open BuildsFrom

variable {nested : ListCompiler} (ctx : CompileContext) {r : Route}

/-! ### Storing -/

/-- A list that was stored with given members, all of one kind. -/
structure ListBuilt (cs : List ComplexId) (ctx : CompileContext) (relative : Bool) (r : Route)
    (l : ListId) (F : Routes) (a : Arena) : Prop where
  stored : l.index < a.lists.size
  route : F.list l = r
  members : (a.list l).complexes = cs
  fits : ∀ c ∈ cs, c.Fits ctx relative r F a
  hasFree : ctx.inHas = true → (a.list l).containsHas = false

/-- A list of members that fit is built on the way of its members. -/
theorem pushList_builds (cs : List ComplexId) (relative : Bool) (a : Arena) :
    BuildsFrom a (fun F a => ∀ c ∈ cs, c.Fits ctx relative r F a) (pushList cs)
      (ListBuilt cs ctx relative r) := by
  have hrun : runFrom (pushList cs) a =
      (.ok ⟨a.lists.size⟩,
        { a with lists := a.lists.push ⟨cs, cs.any a.complexBearsHas⟩ }) := rfl
  refine of_run hrun fun F hF hcs => ?_
  obtain ⟨hgrows, F', hkeeps, hF', hroute⟩ :=
    hF.pushList (L := ⟨cs, cs.any a.complexBearsHas⟩)
      (fun c hc => (hcs c hc).stored) (fun c hc => (hcs c hc).route) rfl
  refine ⟨hgrows, F', hkeeps, hF', ?_⟩
  have hlist : Arena.list { a with lists := a.lists.push ⟨cs, cs.any a.complexBearsHas⟩ }
      ⟨a.lists.size⟩ = ⟨cs, cs.any a.complexBearsHas⟩ := by
    simp [Arena.list]
  constructor
  · simp
  · exact hroute
  · rw [hlist]
  · exact fun c hc => c.fits_lasts ctx relative r hF (hcs c hc) hgrows hkeeps
  · intro hin
    rw [hlist]
    refine List.any_eq_false.mpr fun c hc => ?_
    rw [(hcs c hc).hasFree hin]
    exact Bool.false_ne_true

/-- What is built for an argument fits it. -/
theorem ListBuilt.fits_argument {cs : List ComplexId} {l : ListId} {F : Routes} {a : Arena}
    {ctx : CompileContext} {mode : ListMode}
    (h : ListBuilt cs ctx (decide (mode = .relative)) r l F a) (hnested : ctx.nested = true)
    (hmember : mode ≠ .forgiving → cs ≠ []) : l.Fits ctx mode r F a where
  stored := h.stored
  member hmode := h.members ▸ hmember hmode
  leading c hc := (h.fits c (h.members ▸ hc)).leading
  slotFree c hc := (h.fits c (h.members ▸ hc)).slotFree hnested
  bare c hc := (h.fits c (h.members ▸ hc)).bare hnested
  route := h.route
  hasFree := h.hasFree

/-- What a complex selector has to be to fit. -/
structure ComplexReady (C : ComplexSelector) (ctx : CompileContext) (relative : Bool) (r : Route)
    (F : Routes) (a : Arena) : Prop extends a.SoundComplex C where
  covers : F.Covers r C.first C.joined
  isSome : C.leading.isSome = relative
  slotFree : ctx.nested = true → Combinator.slot ∉ C.combinators
  compound : ∀ d ∈ C.compounds, ∃ r', d.Fits ctx r' F a

/-- A complex selector that is ready is stored, and then it fits. -/
theorem pushComplex_builds (C : ComplexSelector) (relative : Bool) (a : Arena) :
    BuildsFrom a (ComplexReady C ctx relative r) (pushComplex C)
      (ComplexId.Fits · ctx relative r) := by
  have hrun : runFrom (pushComplex C) a =
      (.ok ⟨a.complexes.size⟩, { a with complexes := a.complexes.push C }) := rfl
  refine of_run hrun fun F hF hC => ?_
  obtain ⟨hgrows, F', hkeeps, hF', hroute⟩ := hF.pushComplex hC.toSoundComplex hC.covers
  refine ⟨hgrows, F', hkeeps, hF', ?_⟩
  have hcomplex : Arena.complex { a with complexes := a.complexes.push C } ⟨a.complexes.size⟩ =
      C := by
    simp [Arena.complex]
  constructor
  · simp
  · exact hroute
  · rw [hcomplex]
    exact hC.isSome
  · rw [hcomplex]
    exact hC.slotFree
  · rw [hcomplex]
    intro hin d hd
    obtain ⟨r', hfits⟩ := hC.compound d hd
    exact hfits.bare hin
  · intro hin
    unfold Arena.complexBearsHas
    rw [hcomplex]
    refine List.any_eq_false.mpr fun d hd => ?_
    obtain ⟨r', hfits⟩ := hC.compound d hd
    have hfree : (Arena.compound { a with complexes := a.complexes.push C } d).containsHas =
        false := hfits.hasFree hin
    rw [hfree]
    exact Bool.false_ne_true

/-- The order of matching is an order of all tests of a compound. -/
theorem matchOrder_perm (a : Arena) (simples : List SimpleSelector) :
    (matchOrder a simples).Perm (List.range simples.length) :=
  List.mergeSort_perm _ _

/-- Only tests that ask for related elements have the last rank. -/
theorem rank_eq_five_iff {a : Arena} {s : SimpleSelector} :
    5 ≤ rank a s ↔ a.bearsHas s = true := by
  unfold rank
  split
  · simpa
  · rename_i hbears
    cases s <;> simp [hbears]

/-- In the order by rank the tests that ask for related elements come last. -/
theorem matchOrder_late (a : Arena) (simples : List SimpleSelector) :
    ((matchOrder a simples).filterMap fun i => simples[i]?).Pairwise
      fun s s' => a.bearsHas s = true → a.bearsHas s' = true := by
  have hsorted : (matchOrder a simples).Pairwise fun i j =>
      (simples.map (rank a)).getD i 0 ≤ (simples.map (rank a)).getD j 0 := by
    refine (List.pairwise_mergeSort ?_ ?_ _).imp of_decide_eq_true
    · intro i j k hij hjk
      rw [decide_eq_true_iff] at hij hjk ⊢
      exact Nat.le_trans hij hjk
    · intro i j
      rw [Bool.or_eq_true, decide_eq_true_iff, decide_eq_true_iff]
      exact Nat.le_total _ _
  have hrank : ∀ {i : Nat} {s : SimpleSelector}, simples[i]? = some s →
      (simples.map (rank a)).getD i 0 = rank a s := by
    intro i s hi
    rw [List.getD_eq_getElem?_getD, List.getElem?_map, hi]
    rfl
  rw [List.pairwise_filterMap]
  refine hsorted.imp fun {i j} hij s hs s' hs' hbears => ?_
  rw [hrank hs, hrank hs'] at hij
  rw [← rank_eq_five_iff] at hbears ⊢
  exact Nat.le_trans hbears hij

/-- A draft that fits is stored as a compound that fits, with the same pseudo-element. -/
theorem pushCompound_builds (d : Draft) (below : Route) (a : Arena) :
    BuildsFrom a (d.Fits ctx r below) (pushCompound d) fun c F a =>
      c.Fits ctx r F a ∧ (a.compound c).pseudoElement = d.pseudoElement := by
  let D : Compound :=
    { simples := d.simples
      pseudoElement := d.pseudoElement
      hasNestedHas := d.simples.any fun s => a.bearsHas s && !isHas s
      containsHas := d.simples.any a.bearsHas
      matchOrder := matchOrder a d.simples }
  have hrun : runFrom (pushCompound d) a =
      (.ok ⟨a.compounds.size⟩, { a with compounds := a.compounds.push D }) := rfl
  refine of_run hrun fun F hF hd => ?_
  have hsound : a.SoundCompound D :=
    { order := matchOrder_perm a d.simples
      late := matchOrder_late a d.simples
      arguments := fun s hs => (hd.tests s hs).arguments
      hasFree := fun l hl => (hd.tests _ hl).related l rfl
      containsHas := rfl
      nestedHas := rfl }
  obtain ⟨hgrows, F', hkeeps, hF', hroute⟩ :=
    hF.pushCompound hsound fun s hs => (hd.tests s hs).route
  refine ⟨hgrows, F', hkeeps, hF', ?_⟩
  have hcompound : Arena.compound { a with compounds := a.compounds.push D }
      ⟨a.compounds.size⟩ = D := by
    simp [Arena.compound]
  refine ⟨⟨?_, hroute, ?_, ?_⟩, congrArg Compound.pseudoElement hcompound⟩
  · change a.compounds.size < (a.compounds.push _).size
    simp
  · intro hin
    exact (congrArg Compound.pseudoElement hcompound).trans (hd.bare hin)
  · intro hin
    refine (congrArg Compound.containsHas hcompound).trans ?_
    refine List.any_eq_false.mpr fun s hs => ?_
    rw [(hd.tests s hs).hasFree hin]
    exact Bool.false_ne_true

/-! ### Tests -/

theorem need_builds {α : Type} (e : SelectorError) (o : Option α) (P : ArenaFact) (a : Arena) :
    BuildsFrom a P (need e o) fun _ => P := by
  cases o with
  | none => exact throw e
  | some v => exact pure fun F _ h => h

/-- A test with a `:has()` is one. -/
theorem exists_of_isHas {s : SimpleSelector} (h : isHas s = true) :
    ∃ l, s = .pseudo (.logical .has l) := by
  unfold isHas at h
  split at h
  · exact ⟨_, rfl⟩
  · cases h

/-- A test that has no list fits everywhere. -/
theorem fits_of_no_list {s : SimpleSelector} (hs : s.nestedList? = none) (F : Routes)
    (a : Arena) : s.Fits ctx r F a := by
  have hnone : ∀ l, s.nestedList? ≠ some l := fun l hl => by
    rw [hs] at hl
    cases hl
  constructor
  · exact fun mode l hl => absurd (SimpleSelector.nestedList?_of_argument? hl) (hnone l)
  · exact fun l hl => absurd hl (hnone l)
  · rintro l rfl
    cases hs
  · intro _
    rw [Bool.eq_false_iff, ne_eq, Arena.bearsHas_iff]
    rintro (hhas | ⟨l, hl, -⟩)
    · obtain ⟨l, rfl⟩ := exists_of_isHas hhas
      cases hs
    · exact hnone l hl

/-- A test fits when the list among its arguments was compiled for it, inside of `:has()` if the
test is or stands in one, but not both. -/
theorem fits_of_list {s : SimpleSelector} {l : ListId} {inner : CompileContext} {mode : ListMode}
    {F : Routes} {a : Arena} (hs : s.argument? = some (mode, l))
    (hl : l.Fits inner mode (r.into s) F a) (hhas : mode = .relative → inner.inHas = true)
    (hin : ctx.inHas = true → inner.inHas = true ∧ mode ≠ .relative) : s.Fits ctx r F a := by
  have hlist := SimpleSelector.nestedList?_of_argument? hs
  constructor
  · intro mode' l' hl'
    rw [hs] at hl'
    cases hl'
    exact hl.toArgument
  · intro l' hl'
    rw [hlist] at hl'
    cases hl'
    exact hl.route
  · rintro l' rfl
    cases hs
    exact hl.hasFree (hhas rfl)
  · intro hctx
    obtain ⟨hinner, hmode⟩ := hin hctx
    rw [Bool.eq_false_iff, ne_eq, Arena.bearsHas_iff]
    rintro (hisHas | ⟨l', hl', hbears⟩)
    · obtain ⟨l', rfl⟩ := exists_of_isHas hisHas
      cases hs
      exact hmode rfl
    · rw [hlist] at hl'
      cases hl'
      rw [hl.hasFree hinner] at hbears
      cases hbears

/-- A test that is made from one compiled list. -/
theorem ofList_builds (hnested : nested.Sound) (inner : CompileContext)
    (hinner : inner.nested = true) (mode : ListMode) (tokens : List Token) (text : String)
    (make : ListId → PseudoClass) (way : Route)
    (hmake : ∀ l, (SimpleSelector.pseudo (make l)).argument? = some (mode, l) ∧
      way = r.into (.pseudo (make l)))
    (hhas : mode = .relative → inner.inHas = true)
    (hin : ctx.inHas = true → inner.inHas = true ∧ mode ≠ .relative) (a : Arena) :
    BuildsFrom a (fun _ _ => True)
      (do return make (← nested inner mode tokens text))
      (fun p F a => SimpleSelector.Fits (.pseudo p) ctx r F a) := by
  refine bind (hnested inner mode tokens text way a hinner) fun l a' _ => pure fun F _ hl => ?_
  obtain ⟨hargument, hway⟩ := hmake l
  rw [hway] at hl
  exact fits_of_list ctx hargument hl hhas hin

/-- Every pseudo-class but `:has()` reads its list in the place where it stands. -/
theorem ofPlainList_builds (hnested : nested.Sound) (mode : ListMode) (hmode : mode ≠ .relative)
    (tokens : List Token) (text : String) (make : ListId → PseudoClass) (way : Route)
    (hmake : ∀ l, (SimpleSelector.pseudo (make l)).argument? = some (mode, l) ∧
      way = r.into (.pseudo (make l))) (a : Arena) :
    BuildsFrom a (fun _ _ => True)
      (do return make (← nested { ctx with nested := true } mode tokens text))
      (fun p F a => SimpleSelector.Fits (.pseudo p) ctx r F a) :=
  ofList_builds ctx hnested { ctx with nested := true } rfl mode tokens text make way hmake
    (fun h => absurd h hmode) (fun h => ⟨h, hmode⟩) a

/-- A counting pseudo-class fits, with its list or without. -/
theorem nth_builds (hnested : nested.Sound) (kind : NthKind) (tokens : List Token)
    (text : String) (a : Arena) :
    BuildsFrom a (fun _ _ => True) (nth nested ctx kind tokens text)
      (fun p F a => SimpleSelector.Fits (.pseudo p) ctx r F a) := by
  unfold nth
  dsimp only
  split
  · refine bind (need_builds _ _ _ a) fun formula a' _ => pure fun F _ _ => ?_
    exact fits_of_no_list ctx rfl F a'
  · refine bind (need_builds _ _ _ a) fun formula a' _ => ?_
    exact ofPlainList_builds ctx hnested .strict (by simp) _ text (.nth kind formula ∘ some) r
      (fun l => ⟨rfl, rfl⟩) a'

/-- **The pseudo-classes that are known** fit, each with the list that it asks for. -/
theorem namedPseudoClass_builds (hnested : nested.Sound) (kind : PseudoClassName) (name : String)
    (args : Option Arguments) (text : String) (a : Arena) :
    BuildsFrom a (fun _ _ => True) (namedPseudoClass nested ctx kind name args text)
      (fun p F a => SimpleSelector.Fits (.pseudo p) ctx r F a) := by
  have hplain : ∀ {p : PseudoClass}, p.nestedList? = none →
      BuildsFrom a (fun _ _ => True) (Pure.pure p)
        (fun p F a => SimpleSelector.Fits (.pseudo p) ctx r F a) :=
    fun {p} hp => pure fun F _ _ => fits_of_no_list ctx (s := .pseudo p) hp F a
  cases kind with
  | logical op =>
      cases op with
      | is =>
          exact ofPlainList_builds ctx hnested .forgiving (by simp) _ text
            (.logical .is) r (fun l => ⟨rfl, rfl⟩) a
      | whereAny =>
          exact ofPlainList_builds ctx hnested .forgiving (by simp) _ text
            (.logical .whereAny) r (fun l => ⟨rfl, rfl⟩) a
      | not =>
          exact ofPlainList_builds ctx hnested .strict (by simp) _ text
            (.logical .not) r (fun l => ⟨rfl, rfl⟩) a
      | has =>
          unfold namedPseudoClass
          dsimp only
          split
          · exact throw_bind _ _
          · rename_i houter
            exact ofList_builds ctx hnested { ctx with nested := true, inHas := true } rfl
              .relative _ text (.logical .has) r (fun l => ⟨rfl, rfl⟩) (fun _ => rfl)
              (fun h => absurd h houter) a
  | nth kind => exact nth_builds ctx hnested kind _ text a
  | edge kind => exact hplain rfl
  | host =>
      unfold namedPseudoClass
      dsimp only
      split
      · exact ofPlainList_builds ctx hnested .compound (by simp) _ text
          (.host ∘ some) (.host :: r) (fun l => ⟨rfl, rfl⟩) a
      · exact hplain rfl
  | hostContext =>
      exact ofPlainList_builds ctx hnested .compound (by simp) _ text .hostContext
        (.host :: r) (fun l => ⟨rfl, rfl⟩) a
  | dir =>
      refine bind (need_builds _ _ _ a) fun word a' _ => pure fun F _ _ => ?_
      exact fits_of_no_list ctx rfl F a'
  | lang =>
      refine bind (need_builds _ _ _ a) fun ranges a' _ => pure fun F _ _ => ?_
      exact fits_of_no_list ctx rfl F a'
  | state s => exact hplain rfl
  | unevaluated s => exact hplain rfl

/-- A pseudo-class fits if its name is known. -/
theorem pseudoClass_builds (hnested : nested.Sound) (name : String) (args : Option Arguments)
    (text : String) (a : Arena) :
    BuildsFrom a (fun _ _ => True) (pseudoClass nested ctx name args text)
      (fun p F a => SimpleSelector.Fits (.pseudo p) ctx r F a) := by
  unfold pseudoClass
  split
  · split
    · exact pure fun F _ _ => fits_of_no_list ctx rfl F a
    · exact throw _
  · split
    · exact namedPseudoClass_builds ctx hnested _ name args text a
    · exact throw _

/-! ### Compounds -/

variable {below : Route}

/-- One more test, which fits. -/
theorem Draft.Fits.add {d : Draft} {F : Routes} {a : Arena} (h : d.Fits ctx r below F a)
    {s : SimpleSelector} (hs : s.Fits ctx r F a) : (d.add s).Fits ctx r below F a := by
  unfold Draft.add
  split
  · refine ⟨fun s' hs' => ?_, h.bare, h.slotted⟩
    rcases List.mem_append.mp hs' with hs' | hs'
    · exact h.tests s' hs'
    · rw [List.mem_singleton.mp hs']
      exact hs
  · exact h

/-- The member of the list in `::slotted()` has one compound, which stands on the way of the
list. -/
theorem firstCompound_fits {l : ListId} {F : Routes} {a : Arena} (hF : F.Describes a)
    (hl : l.Fits ctx .compound r F a) : (firstCompound a l).Fits ctx r F a := by
  unfold firstCompound
  cases hcomplexes : (a.list l).complexes with
  | nil => exact absurd hcomplexes (hl.member (by simp))
  | cons c cs =>
      have hc : c ∈ (a.list l).complexes := by simp [hcomplexes]
      have hstored := hF.lists hl.stored c hc
      have hcovers := hF.complex hstored
      rw [hF.list hl.stored c hc, hl.route] at hcovers
      constructor
      · exact (hF.complexes hstored).compounds _ List.mem_cons_self
      · exact hcovers.of_slotFree (hl.slotFree c hc) _ List.mem_cons_self
      · exact fun _ => hl.bare c hc _ List.mem_cons_self
      · intro hin
        have hnone := hl.hasFree hin
        rw [hF.containsHas hl.stored] at hnone
        have hmember := List.any_eq_false.mp hnone c hc
        rw [Bool.not_eq_true] at hmember
        rw [← Bool.not_eq_true]
        exact List.any_eq_false.mp hmember _ List.mem_cons_self

/-- A pseudo-element is put into the draft, and `::slotted()` puts its list in front of it. -/
theorem pseudoElement_builds (hnested : nested.Sound) (d : Draft) (name : String)
    (args : Option Arguments) (text : String) (a : Arena) :
    BuildsFrom a (d.Fits ctx r below) (pseudoElement nested ctx d name args text)
      (Draft.Fits · ctx r below) := by
  unfold pseudoElement
  dsimp only
  split
  · exact throw_bind _ _
  rename_i houter
  rw [Bool.not_eq_true] at houter
  refine bind (need_builds _ _ _ a) fun kind a' _ => ?_
  split
  · exact throw_bind _ _
  split
  · have hlist := hnested { ctx with nested := true } .compound
      (args.elim [] Arguments.tokens) text below a' rfl
    have hkept := frame (d.fits_lasts ctx r below) hlist fun F h => ⟨trivial, h⟩
    refine bind hkept fun l b _ => ?_
    refine bind (get (Q := fun b' F b => b' = b ∧
      l.Fits { ctx with nested := true } .compound below F b ∧ d.Fits ctx r below F b)
      fun F _ h => ⟨rfl, h⟩) fun b' b'' _ => ?_
    refine pure fun F hF h => ?_
    obtain ⟨rfl, hl, hd⟩ := h
    refine ⟨hd.tests, hd.bare, ?_⟩
    rintro c ⟨⟩
    have hfirst := firstCompound_fits _ hF hl
    exact ⟨houter, hfirst.stored, hfirst.route, fun _ => hfirst.bare rfl, hfirst.hasFree⟩
  · refine pure fun F _ h => ⟨h.tests, fun hin => ?_, h.slotted⟩
    rw [houter] at hin
    cases hin

/-- A component is added to a draft that fits. -/
theorem component_builds (hnested : nested.Sound) (whole : String) (d : Draft) (c : Component)
    (a : Arena) :
    BuildsFrom a (d.Fits ctx r below) (component nested ctx whole d c)
      (Draft.Fits · ctx r below) := by
  have hplain : ∀ {s : SimpleSelector}, s.nestedList? = none →
      BuildsFrom a (d.Fits ctx r below) (Pure.pure (d.add s)) (Draft.Fits · ctx r below) :=
    fun hs => pure fun F _ hd => Draft.Fits.add ctx hd (fits_of_no_list ctx hs F a)
  unfold component
  dsimp only
  split
  · exact throw_bind _ _
  cases c with
  | pseudoClass name args text =>
      have hkept := frame (d.fits_lasts ctx r below)
        (pseudoClass_builds (r := r) ctx hnested name args text a) fun F h => ⟨trivial, h⟩
      exact bind hkept fun p a' _ => pure fun F _ h => Draft.Fits.add ctx h.2 h.1
  | pseudoElement name args marks text => exact pseudoElement_builds ctx hnested d name args text a
  | _ => exact hplain rfl

/-- The components of a compound make a draft that fits. -/
theorem draft_builds (hnested : nested.Sound) (whole : String) (components : List Component)
    (r below : Route) (a : Arena) :
    BuildsFrom a (fun _ _ => True) (components.foldlM (component nested ctx whole) {})
      (Draft.Fits · ctx r below) := by
  have hempty : ∀ F, Draft.Fits {} ctx r below F a := by
    intro F
    constructor
    · exact fun s hs => absurd hs List.not_mem_nil
    · exact fun _ => rfl
    · rintro c ⟨⟩
  have hfold := foldlM (R := (Draft.Fits · ctx r below)) components
    (fun c _ d a => component_builds ctx hnested whole d c a) {} a
  exact hfold.weaken (fun F _ _ => hempty F) fun _ _ _ _ h => h

/-- What a compound gives: its place and the steps to what is in its slot, which fit together.  One
that is not the last has neither a slot nor a pseudo-element. -/
structure CompoundFits (ctx : CompileContext) (last : Bool) (r : Route)
    (v : CompoundId × List (Combinator × CompoundId)) (F : Routes) (a : Arena) : Prop where
  compound : v.1.Fits ctx (r.before (v.2.map Prod.fst)) F a
  steps : StepsFit ctx r F a v.2
  ends : a.EndsWell v.1 v.2
  early : last = false → v.2 = [] ∧ a.Bare v.1

/-- What a compound and those behind it refer to is stored. -/
theorem CompoundFits.stored {last : Bool} {v : CompoundId × List (Combinator × CompoundId)}
    {F : Routes} {a : Arena} (h : CompoundFits ctx last r v F a) :
    ∀ d ∈ v.1 :: v.2.map Prod.snd, d.index < a.compounds.size := by
  intro d hd
  rcases List.mem_cons.mp hd with rfl | hd
  · exact h.compound.stored
  · obtain ⟨r', hfits⟩ := h.steps.fits_of_mem d hd
    exact hfits.stored

/-- A compound that fits still fits when more is stored. -/
theorem compoundFits_lasts (last : Bool) (r : Route)
    (v : CompoundId × List (Combinator × CompoundId)) :
    ArenaFact.Lasts (CompoundFits ctx last r v) := by
  intro F F' a a' hF h hgrows hkeeps
  constructor
  · exact v.1.fits_lasts ctx _ hF h.compound hgrows hkeeps
  · exact StepsFit.lasts ctx r v.2 hF h.steps hgrows hkeeps
  · exact h.ends.of_grows hgrows (CompoundFits.stored ctx h)
  · intro hlast
    obtain ⟨hnone, hbare⟩ := h.early hlast
    exact ⟨hnone, hbare.of_grows hgrows h.compound.stored⟩

/-- A compound can be built for any way of what stands last.  Whether that is the compound itself or
what is in its slot shows only when the tests were read, so these are labelled afterwards. -/
theorem compound_builds (hnested : nested.Sound) (whole : String) (last : Bool)
    (components : List Component) (r : Route) (a : Arena) :
    BuildsFrom a (fun _ _ => True) (compound nested ctx whole last components)
      (CompoundFits ctx last r) := by
  obtain ⟨way, hway⟩ : ∃ way : Route, ∀ d a',
      runFrom (components.foldlM (component nested ctx whole) {}) a = (.ok d, a') →
        way = r.before ((d.slotted.toList.map (Combinator.slot, ·)).map Prod.fst) := by
    rcases hrun : runFrom (components.foldlM (component nested ctx whole) {}) a with ⟨e | d, a'⟩
    · exact ⟨r, fun d a' h => by cases h⟩
    · exact ⟨_, fun d a' h => by cases h; rfl⟩
  refine bind (draft_builds ctx hnested whole components way r a) fun d a' hrun => ?_
  have hwayd := hway d a' hrun
  dsimp only
  split
  · exact throw_bind _ _
  rename_i hlast
  have hkept := frame (d.fits_lasts ctx way r) (pushCompound_builds ctx d (r := way) r a')
    fun F h => ⟨h, h⟩
  refine bind hkept fun c a'' _ => pure fun F _ h => ?_
  obtain ⟨⟨hc, hpseudo⟩, hd⟩ := h
  subst hwayd
  have hearly : last = false → d.slotted = none ∧ a''.Bare c := by
    rintro rfl
    simp only [Bool.not_false, Bool.and_true, Bool.or_eq_true, not_or, Bool.not_eq_true,
      Option.isSome_eq_false_iff, Option.isNone_iff_eq_none] at hlast
    exact ⟨hlast.2, hpseudo.trans hlast.1⟩
  cases hslotted : d.slotted with
  | none =>
      rw [hslotted] at hc
      exact ⟨hc, .nil, .last c, fun h => ⟨rfl, (hearly h).2⟩⟩
  | some inner =>
      rw [hslotted] at hc hearly
      obtain ⟨houter, hinner⟩ := hd.slotted inner hslotted
      refine ⟨hc, .cons ?_ hinner .nil, .slot c inner, fun h => ?_⟩
      · intro hin
        rw [houter] at hin
        cases hin
      · cases (hearly h).1

/-! ### Complex selectors -/

/-- The result of the second of two steps is settled before the first one is labelled. -/
private theorem exists_outcome {α β : Type} (x : Compile α) (y : Compile β) (g : β → Route)
    (a : Arena) : ∃ way, ∀ v a' w a'', runFrom x a = (.ok v, a') →
      runFrom y a' = (.ok w, a'') → way = g w := by
  rcases hx : runFrom x a with ⟨e | v, a'⟩
  · refine ⟨[], fun v a' w a'' h => ?_⟩
    cases h
  rcases hy : runFrom y a' with ⟨e | w, a''⟩
  · refine ⟨[], fun v a' w a'' h h' => ?_⟩
    cases h
    rw [hy] at h'
    cases h'
  · refine ⟨g w, fun v a' w a'' h h' => ?_⟩
    cases h
    rw [hy] at h'
    cases h'
    rfl

/-- The steps to the compounds after the first one: they end well after a compound that has no
pseudo-element. -/
structure JoinedFits (ctx : CompileContext) (marks : List (Combinator × List Component))
    (r : Route) (rest : List (Combinator × CompoundId)) (F : Routes) (a : Arena) : Prop where
  steps : StepsFit ctx r F a rest
  ends : ∀ d, a.Bare d → a.EndsWell d rest
  empty : marks.isEmpty = true → rest = []

/-- A compound and what is joined to it end well: either nothing more is joined, or the compound has
neither a slot nor a pseudo-element. -/
theorem CompoundFits.ends_append {marks : List (Combinator × List Component)} {r' : Route}
    {v : CompoundId × List (Combinator × CompoundId)} {rest : List (Combinator × CompoundId)}
    {F : Routes} {a : Arena} (h : CompoundFits ctx marks.isEmpty r' v F a)
    (hrest : JoinedFits ctx marks r rest F a) : a.EndsWell v.1 (v.2 ++ rest) := by
  cases hlast : marks.isEmpty with
  | true =>
      rw [hrest.empty hlast, List.append_nil]
      exact h.ends
  | false =>
      obtain ⟨hnone, hbare⟩ := h.early hlast
      rw [hnone]
      exact hrest.ends v.1 hbare

/-- **The compounds behind the first** fit, each on the way to its place. -/
theorem joined_builds (hnested : nested.Sound) (whole : String)
    (marks : List (Combinator × List Component)) (hmarks : ∀ m ∈ marks, m.1 ≠ .slot) (r : Route)
    (a : Arena) :
    BuildsFrom a (fun _ _ => True) (joined nested ctx whole marks) (JoinedFits ctx marks r) := by
  induction marks generalizing a with
  | nil => exact pure fun F _ _ => ⟨.nil, fun d _ => .last d, fun _ => rfl⟩
  | cons mark more ih =>
      obtain ⟨q, components⟩ := mark
      have hq : q ≠ .slot := hmarks _ List.mem_cons_self
      have ihmore := ih fun m hm => hmarks m (List.mem_cons_of_mem _ hm)
      obtain ⟨way, hway⟩ := exists_outcome (compound nested ctx whole more.isEmpty components)
        (joined nested ctx whole more) (fun rest => r.before (rest.map Prod.fst)) a
      refine bind (compound_builds ctx hnested whole more.isEmpty components way a)
        fun v a' hrun => ?_
      obtain ⟨c, slotted⟩ := v
      have hkept := frame (compoundFits_lasts ctx more.isEmpty way (c, slotted)) (ihmore a')
        fun F h => ⟨trivial, h⟩
      refine bind hkept fun rest a'' hrun' => pure fun F _ h => ?_
      obtain ⟨hrest, hc⟩ := h
      have hwayc := hway (c, slotted) a' rest a'' hrun hrun'
      subst hwayc
      have hcompound := hc.compound
      rw [← Route.before_append, ← List.map_append] at hcompound
      refine ⟨.cons (fun _ => hq) hcompound (hc.steps.append hrest.steps), fun d hd => ?_, ?_⟩
      · exact .before hq hd (CompoundFits.ends_append ctx hc hrest)
      · rintro ⟨⟩

/-- The marks of combinators stand for those that are no slot. -/
theorem combinator_builds (mark : CombinatorMark) (a : Arena) :
    BuildsFrom a (fun _ _ => True) (combinator mark) (fun q _ _ => q ≠ .slot) := by
  cases mark with
  | column => exact throw _
  | _ => exact pure fun F _ _ => by simp

theorem leading_builds (mark : Option CombinatorMark) (a : Arena) :
    BuildsFrom a (fun _ _ => True) (mark.mapM combinator) (fun o _ _ => o ≠ some .slot) := by
  cases mark with
  | none => exact pure fun F _ _ => by simp
  | some mark =>
      refine map (combinator_builds mark a) fun q F a' _ hq => ?_
      simpa using hq

theorem marks_builds (marks : List (CombinatorMark × List Component)) (a : Arena) :
    BuildsFrom a (fun _ _ => True)
      (marks.mapM fun (mark, components) => do return (← combinator mark, components))
      (fun ms _ _ => ∀ m ∈ ms, m.1 ≠ .slot) := by
  refine mapM (fun m => ?_) marks (fun mark _ a => ?_) a
  · intro F F' a a' _ h _ _
    exact h
  · exact bind (combinator_builds mark.1 a) fun q a' _ => pure fun F _ hq => hq

/-- A selector that is followed down has no leading combinator and no slot, and its first compound
asks for an identifier. -/
theorem direction_sound {a : Arena} (relative : Bool) {C : ComplexSelector}
    (hC : C.direction = direction a relative C.first C.joined)
    (hleading : relative = false → C.leading = none) (hdescend : C.direction = .descend) :
    C.leading = none ∧ C.joined ≠ [] ∧ Combinator.slot ∉ C.combinators ∧
      ∃ s ∈ (a.compound C.first).simples, isId s = true := by
  rw [hC] at hdescend
  unfold direction at hdescend
  dsimp only at hdescend
  split at hdescend
  · rename_i h
    simp only [Bool.and_eq_true, Bool.not_eq_true', List.any_eq_true, List.any_eq_false,
      List.isEmpty_eq_false_iff] at h
    obtain ⟨⟨⟨hid, hrelative⟩, hjoined⟩, hslot⟩ := h
    refine ⟨hleading hrelative, hjoined, ?_, hid⟩
    intro hmem
    obtain ⟨step, hstep, hq⟩ := List.mem_map.mp hmem
    exact hslot step hstep (by simp [hq])
  · cases hdescend

/-- **A complex selector fits** when it is stored, with its metadata. -/
theorem complex_builds (hnested : nested.Sound) (relative : Bool) (node : ComplexNode) (r : Route)
    (a : Arena) :
    BuildsFrom a (fun _ _ => True) (complex nested ctx relative node)
      (ComplexId.Fits · ctx relative r) := by
  unfold complex
  refine bind (leading_builds node.leading a) fun leading a₁ _ => of_holds fun hleading => ?_
  refine bind (marks_builds node.joined a₁) fun marks a₂ _ => of_holds fun hmarks => ?_
  obtain ⟨way, hway⟩ := exists_outcome
    (compound nested ctx node.text marks.isEmpty node.first)
    (joined nested ctx node.text marks) (fun rest => r.before (rest.map Prod.fst)) a₂
  refine bind (compound_builds ctx hnested node.text marks.isEmpty node.first way a₂)
    fun v a₃ hrun => ?_
  obtain ⟨first, slotted⟩ := v
  have hkept := frame (compoundFits_lasts ctx marks.isEmpty way (first, slotted))
    (joined_builds ctx hnested node.text marks hmarks r a₃) fun F h => ⟨trivial, h⟩
  refine bind hkept fun rest a₄ hrun' => ?_
  have hwayc := hway (first, slotted) a₃ rest a₄ hrun hrun'
  subst hwayc
  dsimp only
  refine bind (get (Q := fun b F a => b = a ∧ JoinedFits ctx marks r rest F a ∧
    CompoundFits ctx marks.isEmpty (r.before (rest.map Prod.fst)) (first, slotted) F a)
    fun F _ h => ⟨rfl, h⟩) fun b a₅ _ => ?_
  refine (pushComplex_builds ctx _ relative a₅).weaken (fun F hF h => ?_) fun _ _ _ _ h => h
  obtain ⟨rfl, hrest, hfirst⟩ := h
  have hsteps := hfirst.steps.append hrest.steps
  have hcompound := hfirst.compound
  rw [← Route.before_append, ← List.map_append] at hcompound
  have hfits : ∀ d ∈ first :: (slotted ++ rest).map Prod.snd, ∃ r', d.Fits ctx r' F b := by
    intro d hd
    rcases List.mem_cons.mp hd with rfl | hd
    · exact ⟨_, hcompound⟩
    · exact hsteps.fits_of_mem d hd
  refine ⟨⟨?_, CompoundFits.ends_append ctx hfirst hrest, ?_, ?_⟩,
    hsteps.covers hcompound.route, ?_, hsteps.slotFree, hfits⟩
  · intro d hd
    obtain ⟨r', hd⟩ := hfits d hd
    exact hd.stored
  · dsimp only
    split
    · cases leading with
      | none => simp
      | some q => simpa using hleading
    · simp
  · refine direction_sound relative rfl ?_
    rintro rfl
    rfl
  · cases relative with
    | true => rfl
    | false => rfl

/-! ### Lists -/

/-- A member that is forgiven fits, or it is left out. -/
theorem forgivenMember_builds (hnested : nested.Sound) (member : List Token) (r : Route)
    (a : Arena) :
    BuildsFrom a (fun _ _ => True) (forgivenMember nested ctx member)
      (fun o F a => ∀ c, o = some c → c.Fits ctx false r F a) := by
  have hnone : ∀ a', BuildsFrom a' (fun _ _ => True) (Pure.pure none)
      (fun (o : Option ComplexId) F a => ∀ c, o = some c → c.Fits ctx false r F a) := by
    intro a'
    refine pure fun F _ _ => ?_
    rintro c ⟨⟩
  unfold forgivenMember
  split
  · exact hnone a
  · refine forgive ?_ hnone
    have hlift : BuildsFrom a (fun _ _ => True)
        (forgivenMember.liftExcept (ComplexNode.ofTokens ctx.source false member))
        (fun _ _ _ => True) := by
      cases ComplexNode.ofTokens ctx.source false member with
      | error e => exact throw e
      | ok node => exact pure fun F _ h => h
    refine bind hlift fun node a' _ => map (complex_builds ctx hnested false node r a') ?_
    rintro c F a'' _ hc _ ⟨⟩
    exact hc

/-- The members of a list that is not forgiving: there is one at least. -/
theorem members_builds (hnested : nested.Sound) (relative : Bool) {source : List Char}
    {tokens : List Token} {nodes : List ComplexNode}
    (hnodes : ComplexNode.listOfTokens source relative tokens = .ok nodes) (r : Route)
    (a : Arena) :
    BuildsFrom a (fun _ _ => True) (nodes.mapM (complex nested ctx relative) >>= pushList)
      fun l F a => ∃ cs, cs ≠ [] ∧ ListBuilt cs ctx relative r l F a := by
  have hmembers := mapM (fun c => c.fits_lasts ctx relative r) nodes
    (fun node _ a => complex_builds ctx hnested relative node r a) a
  refine bind hmembers fun cs a' hrun => ?_
  refine (pushList_builds ctx cs relative a').ending fun l F a'' _ h => ?_
  refine ⟨cs, fun hempty => ?_, h⟩
  have hlength := length_of_runFrom_mapM hrun
  rw [hempty] at hlength
  exact ComplexNode.listOfTokens_ne_nil hnodes (List.length_eq_zero_iff.mp hlength.symm)

/-- **A list can be built for any way** if the lists inside of it can. -/
theorem listWith_sound (hnested : nested.Sound) : (listWith nested).Sound := by
  intro ctx mode tokens text r a hinner
  unfold listWith
  split
  · rename_i hmode
    subst hmode
    refine bind (filterMapM (fun c => c.fits_lasts ctx false r) _
      (fun member _ a => forgivenMember_builds ctx hnested member r a) a) fun cs a' _ => ?_
    refine (pushList_builds ctx cs false a').ending fun l F a'' _ h => ?_
    exact ListBuilt.fits_argument h hinner fun hmode => absurd rfl hmode
  split
  · exact throw _
  rename_i nodes hnodes
  split
  · exact throw_bind _ _
  refine (members_builds ctx hnested _ hnodes r a).ending fun l F a' _ h => ?_
  obtain ⟨cs, hcs, hbuilt⟩ := h
  exact hbuilt.fits_argument hinner fun _ => hcs

/-- **Every compiler of lists is sound**, by induction on the levels of nesting. -/
theorem list_sound (level : Nat) : (list level).Sound := by
  induction level with
  | zero =>
      intro ctx mode tokens text r a _
      exact throw _
  | succ level ih => exact listWith_sound ih

end Compile

/-- A text compiles where its tokens can stand in a selector, its list can be read, and the members
of the list can be stored. -/
theorem compile_eq_ok_iff {text : String} {s : CompiledSelector} :
    compile text = .ok s ↔ ∃ stream nodes, TokenStream.ofText text = .ok stream ∧
      ComplexNode.listOfTokens stream.source false stream.tokens = .ok nodes ∧
      runFrom (nodes.mapM (Compile.complex (Compile.list stream.tokens.length)
        { source := stream.source } false) >>= Compile.pushList) {} = (.ok s.root, s.arena) ∧
      s.source = text := by
  have hstore : ∀ ends : Except SelectorError ListId × Arena,
      (match ends with
        | (.ok root, arena) => Except.ok (⟨text, arena, root⟩ : CompiledSelector)
        | (.error e, _) => Except.error e) = .ok s ↔
          ends = (.ok s.root, s.arena) ∧ s.source = text := by
    intro ends
    obtain ⟨source, arena, root⟩ := s
    rcases ends with ⟨e | l, a⟩
    · simp
    · constructor
      · rintro ⟨⟩
        exact ⟨rfl, rfl⟩
      · rintro ⟨⟨⟩, rfl⟩
        rfl
  unfold compile
  cases TokenStream.ofText text with
  | error e => simp [bind, Except.bind]
  | ok stream =>
      simp only [bind, Except.bind, Except.ok.injEq, exists_and_left, exists_eq_left']
      cases ComplexNode.listOfTokens stream.source false stream.tokens with
      | error e => simp [throw, throwThe, MonadExceptOf.throw]
      | ok nodes =>
          simp only [Except.ok.injEq, exists_eq_left']
          exact hstore _

/-- **What compiling builds**: an arena with a description, and a root with members, which are not
relative. -/
theorem compile_builds {text : String} {s : CompiledSelector} (hs : compile text = .ok s) :
    ∃ F : Routes, F.Describes s.arena ∧ s.root.index < s.arena.lists.size ∧
      (s.arena.list s.root).complexes ≠ [] ∧
        ∀ c ∈ (s.arena.list s.root).complexes, (s.arena.complex c).leading = none := by
  obtain ⟨stream, nodes, -, hnodes, hrun, -⟩ := compile_eq_ok_iff.mp hs
  have hlist := Compile.members_builds { source := stream.source }
    (Compile.list_sound stream.tokens.length) false hnodes [] {}
  obtain ⟨F, hF, cs, hcs, hbuilt⟩ := hlist.exists_of_runFrom
    (Routes.Describes.empty ⟨fun _ => [], fun _ => [], fun _ => []⟩) hrun
  refine ⟨F, hF, hbuilt.stored, hbuilt.members ▸ hcs, fun c hc => ?_⟩
  rw [← Option.isNone_iff_eq_none, ← Option.isSome_eq_false_iff]
  exact (hbuilt.fits c (hbuilt.members ▸ hc)).leading

/-- **A compiled selector has a description**, and its root is stored. -/
theorem compile_describes {text : String} {s : CompiledSelector} (hs : compile text = .ok s) :
    ∃ F : Routes, F.Describes s.arena ∧ s.root.index < s.arena.lists.size := by
  obtain ⟨F, hF, hroot, -⟩ := compile_builds hs
  exact ⟨F, hF, hroot⟩

end Selectors

import Selectors.Proofs.Compiled.Sound

/-!
# Expanding an arena

What a selector says does not depend on the places of its parts.  To leave the places out, each
reference is replaced by the part it refers to, and as lists inside were stored before the list
around them this comes to an end.  The result is a tree, and it stays the same while more is stored.

* `CompoundTree`, `ComplexTree` and `ListTree` are the parts without places.
* `Arena.expandTest`, `Arena.expandCompound`, `Arena.expandComplex` and `Arena.expand` replace
  references, and `Arena.expand_eq` is the equation of the last one.
* `Arena.Closed` says that all references find their parts, and `Arena.Closed.expand_of_grows` that
  expansions stay.
-/

namespace Selectors

/-! ### Trees -/

/-- A compound with the lists of its tests in place, where `L` are lists. -/
structure CompoundTree (L : Type) where
  /-- The tests, with references blanked, and beside them what they referred to. -/
  tests : List (SimpleSelector × Option L)
  pseudoElement : Option String
  hasNestedHas : Bool
  containsHas : Bool
  matchOrder : List Nat

/-- A complex selector with its compounds in place. -/
structure ComplexTree (L : Type) where
  leading : Option Combinator
  first : CompoundTree L
  joined : List (Combinator × CompoundTree L)
  text : String
  direction : Direction

/-- A list with its members in place, and all lists further inside. -/
inductive ListTree where
  | node (members : List (ComplexTree ListTree)) (containsHas : Bool)

/-- Whether some compound asks for related elements. -/
def ComplexTree.bearsHas {L : Type} (c : ComplexTree L) : Bool :=
  c.first.containsHas || c.joined.any fun step => step.2.containsHas

namespace ListTree

def members : ListTree → List (ComplexTree ListTree)
  | node members _ => members

def containsHas : ListTree → Bool
  | node _ containsHas => containsHas

end ListTree

/-! ### Expanding -/

/-- The pseudo-class with a blank place where it refers to a list. -/
def PseudoClass.blank : PseudoClass → PseudoClass
  | logical op _ => logical op ⟨0⟩
  | nth kind formula filter => nth kind formula (filter.map fun _ => ⟨0⟩)
  | host l => host (l.map fun _ => ⟨0⟩)
  | hostContext _ => hostContext ⟨0⟩
  | p => p

/-- The test with a blank place where it refers to a list. -/
def SimpleSelector.blank : SimpleSelector → SimpleSelector
  | pseudo p => pseudo p.blank
  | s => s

namespace Arena

section Expand

variable (a : Arena) (expand : ListId → ListTree)

def expandTest (s : SimpleSelector) : SimpleSelector × Option ListTree :=
  (s.blank, s.nestedList?.map expand)

def expandCompoundWith (d : CompoundId) : CompoundTree ListTree :=
  let c := a.compound d
  { tests := c.simples.map (expandTest expand)
    pseudoElement := c.pseudoElement
    hasNestedHas := c.hasNestedHas
    containsHas := c.containsHas
    matchOrder := c.matchOrder }

def expandComplexWith (c : ComplexId) : ComplexTree ListTree :=
  let s := a.complex c
  { leading := s.leading
    first := a.expandCompoundWith expand s.first
    joined := s.joined.map fun (q, d) => (q, a.expandCompoundWith expand d)
    text := s.text
    direction := s.direction }

end Expand

/-- Expands a list, with at most `level` levels of lists from there on. -/
def expandLevels (a : Arena) : Nat → ListId → ListTree
  | 0, _ => .node [] false
  | level + 1, l =>
    .node ((a.list l).complexes.map (a.expandComplexWith (a.expandLevels level)))
      (a.list l).containsHas

/-- **The expansion of a list.**  Lists further inside were stored earlier, so its place tells how
many levels there are at most. -/
def expand (a : Arena) (l : ListId) : ListTree :=
  a.expandLevels (l.index + 1) l

/-- The expansion of a complex selector. -/
def expandComplex (a : Arena) (c : ComplexId) : ComplexTree ListTree :=
  a.expandComplexWith a.expand c

/-- The expansion of a compound. -/
def expandCompound (a : Arena) (d : CompoundId) : CompoundTree ListTree :=
  a.expandCompoundWith a.expand d

/-! ### Closed arenas -/

/-- Every reference finds its part, and what a list holds was stored before it. -/
structure Closed (a : Arena) : Prop where
  lists : ∀ {l}, l.index < a.lists.size → ∀ c ∈ (a.list l).complexes,
    c.index < a.complexes.size
  complexes : ∀ {c}, c.index < a.complexes.size → ∀ d ∈ (a.complex c).compounds,
    d.index < a.compounds.size
  compounds : ∀ {d}, d.index < a.compounds.size → ∀ s ∈ (a.compound d).simples,
    ∀ l, s.nestedList? = some l → l.index < a.lists.size
  smaller : ∀ {l inner}, l.index < a.lists.size → a.Nests l inner → inner.index < l.index

/-- In an empty arena nothing refers to anything. -/
theorem closed_empty : ({} : Arena).Closed where
  lists hl := absurd hl (Nat.not_lt_zero _)
  complexes hc := absurd hc (Nat.not_lt_zero _)
  compounds hd := absurd hd (Nat.not_lt_zero _)
  smaller hl := absurd hl (Nat.not_lt_zero _)

variable {a a' : Arena} {f g : ListId → ListTree}

/-! ### Expansions stay -/

/-- What a test expands to depends on its list only. -/
theorem expandTest_congr {s : SimpleSelector} (h : ∀ l, s.nestedList? = some l → f l = g l) :
    expandTest f s = expandTest g s := by
  unfold expandTest
  cases hl : s.nestedList? with
  | none => rfl
  | some l => rw [Option.map_some, Option.map_some, h l hl]

/-- What a compound expands to depends on the lists in its tests only. -/
theorem expandCompoundWith_congr {d : CompoundId} (hd : a'.compound d = a.compound d)
    (h : ∀ s ∈ (a.compound d).simples, ∀ l, s.nestedList? = some l → f l = g l) :
    a'.expandCompoundWith f d = a.expandCompoundWith g d := by
  unfold expandCompoundWith
  rw [hd]
  dsimp only
  rw [List.map_congr_left fun s hs => expandTest_congr (h s hs)]

/-- What a complex selector expands to depends on the lists in its compounds only. -/
theorem expandComplexWith_congr {c : ComplexId} (hc : a'.complex c = a.complex c)
    (hcompounds : ∀ d ∈ (a.complex c).compounds, a'.compound d = a.compound d)
    (h : ∀ d ∈ (a.complex c).compounds, ∀ s ∈ (a.compound d).simples,
      ∀ l, s.nestedList? = some l → f l = g l) :
    a'.expandComplexWith f c = a.expandComplexWith g c := by
  have hcompound : ∀ d ∈ (a.complex c).compounds,
      a'.expandCompoundWith f d = a.expandCompoundWith g d :=
    fun d hd => expandCompoundWith_congr (hcompounds d hd) (h d hd)
  unfold expandComplexWith
  rw [hc]
  dsimp only
  rw [hcompound _ List.mem_cons_self]
  congr 1
  refine List.map_congr_left fun step hstep => ?_
  obtain ⟨q, d⟩ := step
  have hd : d ∈ (a.complex c).compounds :=
    List.mem_cons_of_mem _ (List.mem_map.mpr ⟨(q, d), hstep, rfl⟩)
  dsimp only
  rw [hcompound d hd]

/-- Neither the number of levels counts, nor what is stored later, by induction on the levels: the
lists inside have smaller places. -/
theorem Closed.expandLevels_of_grows (ha : a.Closed) (hgrows : a.Grows a') {level level' : Nat}
    {l : ListId} (hl : l.index < a.lists.size) (hlevel : l.index < level)
    (hlevel' : l.index < level') : a'.expandLevels level' l = a.expandLevels level l := by
  induction level generalizing level' l with
  | zero => exact absurd hlevel (Nat.not_lt_zero _)
  | succ level ih =>
      cases level' with
      | zero => exact absurd hlevel' (Nat.not_lt_zero _)
      | succ level' =>
          unfold expandLevels
          rw [hgrows.list hl]
          congr 1
          refine List.map_congr_left fun c hc => ?_
          have hc' := ha.lists hl c hc
          refine expandComplexWith_congr (hgrows.complex hc')
            (fun d hd => hgrows.compound (ha.complexes hc' d hd)) fun d hd s hs inner hinner => ?_
          have hlt := ha.smaller hl ⟨c, hc, d, hd, s, hs, hinner⟩
          exact ih (Nat.lt_trans hlt hl) (by omega) (by omega)

/-- **The expansion of a list stays** while more is stored. -/
theorem Closed.expand_of_grows (ha : a.Closed) (hgrows : a.Grows a') {l : ListId}
    (hl : l.index < a.lists.size) : a'.expand l = a.expand l :=
  ha.expandLevels_of_grows hgrows hl (Nat.lt_succ_self _) (Nat.lt_succ_self _)

/-- What a test expands to stays while more is stored. -/
theorem Closed.expandTest_of_grows (ha : a.Closed) (hgrows : a.Grows a') {s : SimpleSelector}
    (hs : ∀ l, s.nestedList? = some l → l.index < a.lists.size) :
    expandTest a'.expand s = expandTest a.expand s :=
  expandTest_congr fun l hl => ha.expand_of_grows hgrows (hs l hl)

/-- What a compound expands to stays while more is stored. -/
theorem Closed.expandCompound_of_grows (ha : a.Closed) (hgrows : a.Grows a') {d : CompoundId}
    (hd : d.index < a.compounds.size) : a'.expandCompound d = a.expandCompound d :=
  expandCompoundWith_congr (hgrows.compound hd) fun s hs l hl =>
    ha.expand_of_grows hgrows (ha.compounds hd s hs l hl)

/-- What a complex selector expands to stays while more is stored. -/
theorem Closed.expandComplex_of_grows (ha : a.Closed) (hgrows : a.Grows a') {c : ComplexId}
    (hc : c.index < a.complexes.size) : a'.expandComplex c = a.expandComplex c :=
  expandComplexWith_congr (hgrows.complex hc)
    (fun d hd => hgrows.compound (ha.complexes hc d hd))
    fun d hd s hs l hl => ha.expand_of_grows hgrows (ha.compounds (ha.complexes hc d hd) s hs l hl)

/-- **The expansion of a list** are those of its members. -/
theorem Closed.expand_eq (ha : a.Closed) {l : ListId} (hl : l.index < a.lists.size) :
    a.expand l = .node ((a.list l).complexes.map a.expandComplex) (a.list l).containsHas := by
  unfold expand expandLevels
  congr 1
  refine List.map_congr_left fun c hc => ?_
  refine expandComplexWith_congr rfl (fun _ _ => rfl) fun d hd s hs inner hinner => ?_
  have hlt := ha.smaller hl ⟨c, hc, d, hd, s, hs, hinner⟩
  exact ha.expandLevels_of_grows (Grows.refl a) (Nat.lt_trans hlt hl) (Nat.lt_succ_self _) hlt

/-! ### Storing -/

/-- A list of stored members may be stored. -/
theorem Closed.pushList (ha : a.Closed) {L : SelectorList}
    (hL : ∀ c ∈ L.complexes, c.index < a.complexes.size) :
    Closed { a with lists := a.lists.push L } := by
  have hgrows := grows_pushList a L
  have hnew : ∀ l : ListId, l.index < (a.lists.push L).size →
      l.index < a.lists.size ∨ (l.index = a.lists.size ∧
        Arena.list { a with lists := a.lists.push L } l = L) := by
    intro l hl
    rw [Array.size_push] at hl
    rcases Nat.lt_or_eq_of_le (Nat.le_of_lt_succ hl) with hl | hl
    · exact Or.inl hl
    · refine Or.inr ⟨hl, ?_⟩
      simp [Arena.list, hl]
  constructor
  · intro l hl c hc
    rcases hnew l hl with hold | ⟨-, heq⟩
    · rw [hgrows.list hold] at hc
      exact ha.lists hold c hc
    · rw [heq] at hc
      exact hL c hc
  · exact ha.complexes
  · intro d hd s hs l hl
    exact Nat.lt_of_lt_of_le (ha.compounds hd s hs l hl) hgrows.lists
  · intro l inner hl hnests
    obtain ⟨c, hc, d, hd, s, hs, hinner⟩ := hnests
    rcases hnew l hl with hold | ⟨hindex, heq⟩
    · rw [hgrows.list hold] at hc
      exact ha.smaller hold ⟨c, hc, d, hd, s, hs, hinner⟩
    · rw [heq] at hc
      rw [hindex]
      exact ha.compounds (ha.complexes (hL c hc) d hd) s hs inner hinner

/-- A complex selector of stored compounds may be stored. -/
theorem Closed.pushComplex (ha : a.Closed) {C : ComplexSelector}
    (hC : ∀ d ∈ C.compounds, d.index < a.compounds.size) :
    Closed { a with complexes := a.complexes.push C } := by
  have hgrows := grows_pushComplex a C
  constructor
  · intro l hl c hc
    exact Nat.lt_of_lt_of_le (ha.lists hl c hc) hgrows.complexes
  · intro c hc d hd
    rw [Array.size_push] at hc
    rcases Nat.lt_or_eq_of_le (Nat.le_of_lt_succ hc) with hold | heq
    · rw [hgrows.complex hold] at hd
      exact ha.complexes hold d hd
    · simp only [Arena.complex, heq, Array.getElem?_push_size, Option.getD_some] at hd
      exact hC d hd
  · exact ha.compounds
  · intro l inner hl hnests
    obtain ⟨c, hc, d, hd, s, hs, hinner⟩ := hnests
    rw [hgrows.complex (ha.lists hl c hc)] at hd
    exact ha.smaller hl ⟨c, hc, d, hd, s, hs, hinner⟩

/-- A compound with stored lists may be stored. -/
theorem Closed.pushCompound (ha : a.Closed) {D : Compound}
    (hD : ∀ s ∈ D.simples, ∀ l, s.nestedList? = some l → l.index < a.lists.size) :
    Closed { a with compounds := a.compounds.push D } := by
  have hgrows := grows_pushCompound a D
  constructor
  · exact ha.lists
  · intro c hc d hd
    exact Nat.lt_of_lt_of_le (ha.complexes hc d hd) hgrows.compounds
  · intro d hd s hs
    rw [Array.size_push] at hd
    rcases Nat.lt_or_eq_of_le (Nat.le_of_lt_succ hd) with hold | heq
    · rw [hgrows.compound hold] at hs
      exact ha.compounds hold s hs
    · simp only [Arena.compound, heq, Array.getElem?_push_size, Option.getD_some] at hs
      exact hD s hs
  · intro l inner hl hnests
    obtain ⟨c, hc, d, hd, s, hs, hinner⟩ := hnests
    rw [hgrows.compound (ha.complexes (ha.lists hl c hc) d hd)] at hs
    exact ha.smaller hl ⟨c, hc, d, hd, s, hs, hinner⟩

/-! ### What was stored -/

/-- A list that is stored expands to the expansions of its members. -/
theorem Closed.expand_pushList (ha : a.Closed) {L : SelectorList}
    (hL : ∀ c ∈ L.complexes, c.index < a.complexes.size) :
    Arena.expand { a with lists := a.lists.push L } ⟨a.lists.size⟩ =
      .node (L.complexes.map a.expandComplex) L.containsHas := by
  have hlist : Arena.list { a with lists := a.lists.push L } ⟨a.lists.size⟩ = L := by
    simp [Arena.list]
  rw [(ha.pushList hL).expand_eq (l := ⟨a.lists.size⟩) (by simp), hlist]
  congr 1
  exact List.map_congr_left fun c hc => ha.expandComplex_of_grows (grows_pushList a L) (hL c hc)

/-- A complex selector that is stored expands to its parts, with its compounds expanded. -/
theorem Closed.expandComplex_pushComplex (ha : a.Closed) {C : ComplexSelector}
    (hC : ∀ d ∈ C.compounds, d.index < a.compounds.size) :
    Arena.expandComplex { a with complexes := a.complexes.push C } ⟨a.complexes.size⟩ =
      { leading := C.leading
        first := a.expandCompound C.first
        joined := C.joined.map fun (q, d) => (q, a.expandCompound d)
        text := C.text
        direction := C.direction } := by
  have hgrows := grows_pushComplex a C
  have hcomplex : Arena.complex { a with complexes := a.complexes.push C } ⟨a.complexes.size⟩ =
      C := by
    simp [Arena.complex]
  have hcompound : ∀ d ∈ C.compounds,
      Arena.expandCompound { a with complexes := a.complexes.push C } d = a.expandCompound d :=
    fun d hd => ha.expandCompound_of_grows hgrows (hC d hd)
  unfold expandComplex expandComplexWith
  rw [hcomplex]
  dsimp only
  congr 1
  · exact hcompound _ List.mem_cons_self
  · refine List.map_congr_left fun step hstep => ?_
    obtain ⟨q, d⟩ := step
    exact congrArg (Prod.mk q)
      (hcompound d (List.mem_cons_of_mem _ (List.mem_map.mpr ⟨(q, d), hstep, rfl⟩)))

/-- A compound that is stored expands to its parts, with its tests expanded. -/
theorem Closed.expandCompound_pushCompound (ha : a.Closed) {D : Compound}
    (hD : ∀ s ∈ D.simples, ∀ l, s.nestedList? = some l → l.index < a.lists.size) :
    Arena.expandCompound { a with compounds := a.compounds.push D } ⟨a.compounds.size⟩ =
      { tests := D.simples.map (expandTest a.expand)
        pseudoElement := D.pseudoElement
        hasNestedHas := D.hasNestedHas
        containsHas := D.containsHas
        matchOrder := D.matchOrder } := by
  have hcompound : Arena.compound { a with compounds := a.compounds.push D }
      ⟨a.compounds.size⟩ = D := by
    simp [Arena.compound]
  unfold expandCompound expandCompoundWith
  rw [hcompound]
  dsimp only
  congr 1
  exact List.map_congr_left fun s hs =>
    ha.expandTest_of_grows (grows_pushCompound a D) (hD s hs)

/-! ### Records about `:has()` -/

/-- Whether a test asks for related elements, itself or inside. -/
def testBearsHas (t : SimpleSelector × Option ListTree) : Bool :=
  Compile.isHas t.1 || t.2.any ListTree.containsHas

/-- A test is a `:has()` with its list or without. -/
theorem isHas_blank (s : SimpleSelector) : Compile.isHas s.blank = Compile.isHas s := by
  cases s with
  | pseudo p =>
      cases p with
      | logical op l => cases op <;> rfl
      | _ => rfl
  | _ => rfl

/-- Whether a test bears a `:has()` is seen in its expansion. -/
theorem bearsHas_eq (a : Arena) (s : SimpleSelector) :
    a.bearsHas s = testBearsHas (expandTest a.expand s) := by
  rw [Bool.eq_iff_iff, bearsHas_iff, testBearsHas, Bool.or_eq_true]
  dsimp only [expandTest]
  rw [isHas_blank, Option.any_map, Option.any_eq_true]
  rfl

/-- Whether a test asks for related elements inside only. -/
def testNestsHas (t : SimpleSelector × Option ListTree) : Bool :=
  testBearsHas t && !Compile.isHas t.1

/-- Whether a `:has()` stands inside a test is seen in its expansion. -/
theorem nestsHas_eq (a : Arena) (s : SimpleSelector) :
    (a.bearsHas s && !Compile.isHas s) = testNestsHas (expandTest a.expand s) := by
  rw [bearsHas_eq, ← isHas_blank s]
  rfl

/-- Whether a complex selector bears a `:has()` is seen in its expansion. -/
theorem complexBearsHas_eq (a : Arena) (c : ComplexId) :
    a.complexBearsHas c = (a.expandComplex c).bearsHas := by
  have hjoined : ((a.expandComplex c).joined.any fun step => step.2.containsHas) =
      ((a.complex c).joined.map Prod.snd).any fun d => (a.compound d).containsHas := by
    rw [List.any_map]
    exact List.any_map
  unfold complexBearsHas ComplexSelector.compounds ComplexTree.bearsHas
  rw [List.any_cons, hjoined]
  rfl

end Arena

end Selectors

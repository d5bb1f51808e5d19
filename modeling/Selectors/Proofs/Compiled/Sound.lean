import Mathlib.Logic.Relation
import Selectors.Compiled.Compile

/-!
# The parts of an arena

Parts refer to parts that were stored before them, and what a part may refer to does not change when
more is stored.  An argument was read in one of four ways, each of which asks something of the list:
that it is not empty, how its members begin, and that no pseudo-element stands in it.  What a part
records about `:has()` sums up what its own parts record.

* `Arena.Argument` is what holds of the list in an argument.
* `Arena.EndsWell` says where slots and pseudo-elements may stand in a row of compounds.
* `Arena.Sound` is what holds of an arena at every time.
* `Arena.Grows` is growth: what is stored stays, and stays sound.
* `Arena.Reaches` follows arguments from a list, and `Arena.NestsAs` names how one was read.
-/

namespace Selectors

/-! ### What a part refers to -/

namespace SimpleSelector

/-- The list among the arguments of a test. -/
def nestedList? : SimpleSelector → Option ListId
  | pseudo p => p.nestedList?
  | _ => none

/-- The list among the arguments of a test, with the way in which it was read. -/
def argument? : SimpleSelector → Option (ListMode × ListId)
  | pseudo (.logical .is l) | pseudo (.logical .whereAny l) => some (.forgiving, l)
  | pseudo (.logical .not l) | pseudo (.nth _ _ (some l)) => some (.strict, l)
  | pseudo (.logical .has l) => some (.relative, l)
  | pseudo (.host (some l)) | pseudo (.hostContext l) => some (.compound, l)
  | _ => none

/-- Whether the list of a test is matched against the host of the node, or what is around it. -/
def asksHost : SimpleSelector → Bool
  | pseudo (.host _) | pseudo (.hostContext _) => true
  | _ => false

/-- The list in a test is the one in its argument, however that was read. -/
theorem nestedList?_eq (s : SimpleSelector) : s.nestedList? = s.argument?.map Prod.snd := by
  cases s with
  | pseudo p =>
      cases p with
      | logical op l => cases op <;> rfl
      | nth kind formula filter => cases filter <;> rfl
      | host l => cases l <;> rfl
      | _ => rfl
  | _ => rfl

/-- A test with a list has an argument. -/
theorem exists_argument? {s : SimpleSelector} {l : ListId} (h : s.nestedList? = some l) :
    ∃ mode, s.argument? = some (mode, l) := by
  rw [nestedList?_eq, Option.map_eq_some_iff] at h
  obtain ⟨⟨mode, l'⟩, hargument, rfl⟩ := h
  exact ⟨mode, hargument⟩

/-- A test with an argument has its list. -/
theorem nestedList?_of_argument? {s : SimpleSelector} {mode : ListMode} {l : ListId}
    (h : s.argument? = some (mode, l)) : s.nestedList? = some l := by
  rw [nestedList?_eq, h]
  rfl

/-- Relative selectors stand in `:has()` alone. -/
theorem eq_has_of_relative {s : SimpleSelector} {l : ListId}
    (h : s.argument? = some (.relative, l)) : s = .pseudo (.logical .has l) := by
  cases s with
  | pseudo p =>
      cases p with
      | logical op l' =>
          cases op <;> cases h
          rfl
      | nth kind formula filter => cases filter <;> cases h
      | host l' => cases l' <;> cases h
      | _ => cases h
  | _ => cases h

end SimpleSelector

/-- Only the tests of a compound are made. -/
theorem Compound.mem_simples {c : Compound} {s : SimpleSelector} (hs : s ∈ c.inOrder) :
    s ∈ c.simples := by
  obtain ⟨i, -, hi⟩ := List.mem_filterMap.mp hs
  exact List.mem_of_getElem? hi

/-- What holds of some element is decided by the elements of the row. -/
theorem any_congr_of_mem {α : Type} {xs : List α} {p q : α → Bool} (h : ∀ x ∈ xs, p x = q x) :
    xs.any p = xs.any q := by
  rw [Bool.eq_iff_iff, List.any_eq_true, List.any_eq_true]
  refine exists_congr fun x => and_congr_right fun hx => ?_
  rw [h x hx]

namespace Arena

/-- A list that has members is stored. -/
theorem lt_of_mem_list {a : Arena} {l : ListId} {c : ComplexId} (h : c ∈ (a.list l).complexes) :
    l.index < a.listCount := by
  apply Nat.lt_of_not_le
  intro hge
  unfold list at h
  rw [Array.getElem?_eq_none hge] at h
  exact absurd h List.not_mem_nil

/-- A compound that has tests is stored. -/
theorem lt_of_mem_compound {a : Arena} {d : CompoundId} {s : SimpleSelector}
    (h : s ∈ (a.compound d).simples) : d.index < a.compounds.size := by
  apply Nat.lt_of_not_le
  intro hge
  unfold compound at h
  rw [Array.getElem?_eq_none hge] at h
  exact absurd h List.not_mem_nil

/-- Whether no member of a list has a slot combinator. -/
def SlotFree (a : Arena) (l : ListId) : Prop :=
  ∀ c ∈ (a.list l).complexes, Combinator.slot ∉ (a.complex c).combinators

/-- A compound without a pseudo-element. -/
def Bare (a : Arena) (d : CompoundId) : Prop :=
  (a.compound d).pseudoElement = none

/-- A list is nested in another one: some test of a member of that one has it for an argument. -/
def Nests (a : Arena) (outer inner : ListId) : Prop :=
  ∃ c ∈ (a.list outer).complexes, ∃ d ∈ (a.complex c).compounds,
    ∃ s ∈ (a.compound d).simples, s.nestedList? = some inner

/-- In a row of compounds a slot combinator comes last, and pseudo-elements stand in the last
compound or right before the slot. -/
inductive EndsWell (a : Arena) : CompoundId → List (Combinator × CompoundId) → Prop
  | last (d : CompoundId) : EndsWell a d []
  | slot (d inner : CompoundId) : EndsWell a d [(.slot, inner)]
  | before {d next : CompoundId} {q : Combinator} {more : List (Combinator × CompoundId)}
      (slotFree : q ≠ .slot) (bare : a.Bare d) (rest : EndsWell a next more) :
      EndsWell a d ((q, next) :: more)

/-- A list that was read in an argument: it is empty only where members that fail are left out, its
members begin with a combinator only where they are relative, and neither slots nor pseudo-elements
stand in it. -/
structure Argument (a : Arena) (mode : ListMode) (l : ListId) : Prop where
  stored : l.index < a.lists.size
  member : mode ≠ .forgiving → (a.list l).complexes ≠ []
  leading : ∀ c ∈ (a.list l).complexes, (a.complex c).leading.isSome = decide (mode = .relative)
  slotFree : a.SlotFree l
  bare : ∀ c ∈ (a.list l).complexes, ∀ d ∈ (a.complex c).compounds, a.Bare d

/-- A complex selector whose compounds are stored, and that is followed from its first compound only
where the first one has an id and something else stands in the same tree. -/
structure SoundComplex (a : Arena) (c : ComplexSelector) : Prop where
  compounds : ∀ d ∈ c.compounds, d.index < a.compounds.size
  ends : a.EndsWell c.first c.joined
  leading : c.leading ≠ some .slot
  descend : c.direction = .descend → c.leading = none ∧ c.joined ≠ [] ∧
    Combinator.slot ∉ c.combinators ∧ ∃ s ∈ (a.compound c.first).simples, Compile.isId s = true

/-- A compound whose arguments are stored and hold no `:has()` inside of another one, whose tests
are each made once, those that ask for related elements last, and whose records are true. -/
structure SoundCompound (a : Arena) (d : Compound) : Prop where
  order : d.matchOrder.Perm (List.range d.simples.length)
  late : d.inOrder.Pairwise fun s s' => a.bearsHas s = true → a.bearsHas s' = true
  arguments : ∀ s ∈ d.simples, ∀ mode l, s.argument? = some (mode, l) → a.Argument mode l
  hasFree : ∀ l, .pseudo (.logical .has l) ∈ d.simples → (a.list l).containsHas = false
  containsHas : d.containsHas = d.simples.any a.bearsHas
  nestedHas : d.hasNestedHas = d.simples.any fun s => a.bearsHas s && !Compile.isHas s

/-- The lists in a compound are stored, and no slot stands in their members. -/
theorem SoundCompound.lists {a : Arena} {d : Compound} (h : a.SoundCompound d) :
    ∀ s ∈ d.simples, ∀ l, s.nestedList? = some l → l.index < a.lists.size ∧ a.SlotFree l := by
  intro s hs l hl
  obtain ⟨mode, hargument⟩ := SimpleSelector.exists_argument? hl
  have hfits := h.arguments s hs mode l hargument
  exact ⟨hfits.stored, hfits.slotFree⟩

/-- A sound compound makes all its tests. -/
theorem SoundCompound.mem_inOrder {a : Arena} {c : Compound} (hc : a.SoundCompound c)
    {s : SimpleSelector} (hs : s ∈ c.simples) : s ∈ c.inOrder := by
  obtain ⟨i, hi⟩ := List.mem_iff_getElem?.mp hs
  obtain ⟨hlt, -⟩ := List.getElem?_eq_some_iff.mp hi
  exact List.mem_filterMap.mpr ⟨i, hc.order.mem_iff.mpr (List.mem_range.mpr hlt), hi⟩

/-- **Every reference finds its part**, nested lists were stored before the list around them, and
each list records whether some member asks for related elements. -/
structure Sound (a : Arena) : Prop where
  lists : ∀ {l}, l.index < a.lists.size → ∀ c ∈ (a.list l).complexes,
    c.index < a.complexes.size
  complexes : ∀ {c}, c.index < a.complexes.size → a.SoundComplex (a.complex c)
  compounds : ∀ {d}, d.index < a.compounds.size → a.SoundCompound (a.compound d)
  smaller : ∀ {l inner}, l.index < a.lists.size → a.Nests l inner → inner.index < l.index
  containsHas : ∀ {l}, l.index < a.lists.size →
    (a.list l).containsHas = (a.list l).complexes.any a.complexBearsHas

/-- The compounds in a stored list are sound. -/
theorem Sound.compound_of_mem {a : Arena} (ha : a.Sound) {l : ListId}
    (hl : l.index < a.lists.size) {c : ComplexId} (hc : c ∈ (a.list l).complexes)
    {d : CompoundId} (hd : d ∈ (a.complex c).compounds) :
    a.SoundCompound (a.compound d) :=
  ha.compounds ((ha.complexes (ha.lists hl c hc)).compounds d hd)

/-- A test asks for related elements itself or in its argument. -/
theorem bearsHas_iff {a : Arena} {s : SimpleSelector} : a.bearsHas s = true ↔
    Compile.isHas s = true ∨ ∃ l, s.nestedList? = some l ∧ (a.list l).containsHas = true := by
  cases s with
  | pseudo p =>
      cases p with
      | logical op l => cases op <;> simp [bearsHas, Compile.isHas, SimpleSelector.nestedList?,
          PseudoClass.nestedList?]
      | _ => simp [bearsHas, Compile.isHas, SimpleSelector.nestedList?, Option.any_eq_true]
  | _ => simp [bearsHas, Compile.isHas, SimpleSelector.nestedList?]

/-! ### Growth -/

/-- Everything stored in the first arena is stored in the second at the same place. -/
structure Grows (a a' : Arena) : Prop where
  lists : a.lists.size ≤ a'.lists.size
  complexes : a.complexes.size ≤ a'.complexes.size
  compounds : a.compounds.size ≤ a'.compounds.size
  list : ∀ {l}, l.index < a.lists.size → a'.list l = a.list l
  complex : ∀ {c}, c.index < a.complexes.size → a'.complex c = a.complex c
  compound : ∀ {d}, d.index < a.compounds.size → a'.compound d = a.compound d

variable {a a' : Arena}

theorem Grows.refl (a : Arena) : a.Grows a where
  lists := Nat.le_refl _
  complexes := Nat.le_refl _
  compounds := Nat.le_refl _
  list _ := rfl
  complex _ := rfl
  compound _ := rfl

theorem Grows.trans {a'' : Arena} (h : a.Grows a') (h' : a'.Grows a'') : a.Grows a'' where
  lists := Nat.le_trans h.lists h'.lists
  complexes := Nat.le_trans h.complexes h'.complexes
  compounds := Nat.le_trans h.compounds h'.compounds
  list hl := by rw [h'.list (Nat.lt_of_lt_of_le hl h.lists), h.list hl]
  complex hc := by rw [h'.complex (Nat.lt_of_lt_of_le hc h.complexes), h.complex hc]
  compound hd := by rw [h'.compound (Nat.lt_of_lt_of_le hd h.compounds), h.compound hd]

private theorem getElem?_push_old {α : Type} {row : Array α} {x : α} {i : Nat}
    (hi : i < row.size) : (row.push x)[i]? = row[i]? := by
  rw [Array.getElem?_push, if_neg (Nat.ne_of_lt hi)]

/-- An arena grows by one more list. -/
theorem grows_pushList (a : Arena) (L : SelectorList) :
    a.Grows { a with lists := a.lists.push L } :=
  { Grows.refl a with
    lists := by simp
    list := fun hl => by simp only [list, getElem?_push_old hl] }

/-- An arena grows by one more complex selector. -/
theorem grows_pushComplex (a : Arena) (C : ComplexSelector) :
    a.Grows { a with complexes := a.complexes.push C } :=
  { Grows.refl a with
    complexes := by simp
    complex := fun hc => by simp only [complex, getElem?_push_old hc] }

/-- An arena grows by one more compound. -/
theorem grows_pushCompound (a : Arena) (D : Compound) :
    a.Grows { a with compounds := a.compounds.push D } :=
  { Grows.refl a with
    compounds := by simp
    compound := fun hd => by simp only [compound, getElem?_push_old hd] }

/-- A compound without a pseudo-element stays one. -/
theorem Bare.of_grows {d : CompoundId} (h : a.Bare d) (hgrows : a.Grows a')
    (hd : d.index < a.compounds.size) : a'.Bare d := by
  unfold Bare
  rw [hgrows.compound hd]
  exact h

/-- A row of compounds that ends well still does. -/
theorem EndsWell.of_grows {d : CompoundId} {steps : List (Combinator × CompoundId)}
    (h : a.EndsWell d steps) (hgrows : a.Grows a')
    (hstored : ∀ e ∈ d :: steps.map Prod.snd, e.index < a.compounds.size) :
    a'.EndsWell d steps := by
  induction h with
  | last d => exact .last d
  | slot d inner => exact .slot d inner
  | before hslot hbare _ ih =>
      exact .before hslot (hbare.of_grows hgrows (hstored _ List.mem_cons_self))
        (ih fun e he => hstored e (List.mem_cons_of_mem _ he))

/-- What a test asks for is decided by a stored list. -/
theorem bearsHas_of_grows (hgrows : a.Grows a') {s : SimpleSelector}
    (hstored : ∀ l, s.nestedList? = some l → l.index < a.lists.size) :
    a'.bearsHas s = a.bearsHas s := by
  rw [Bool.eq_iff_iff, bearsHas_iff, bearsHas_iff]
  refine or_congr_right (exists_congr fun l => and_congr_right fun hl => ?_)
  rw [hgrows.list (hstored l hl)]

/-- Whether a stored complex selector bears a `:has()` does not change. -/
theorem Sound.complexBearsHas_of_grows (h : a.Sound) (hgrows : a.Grows a') {c : ComplexId}
    (hc : c.index < a.complexes.size) : a'.complexBearsHas c = a.complexBearsHas c := by
  unfold complexBearsHas
  rw [hgrows.complex hc]
  refine any_congr_of_mem fun d hd => ?_
  rw [hgrows.compound ((h.complexes hc).compounds d hd)]

/-- The list in an argument stays what it is. -/
theorem Argument.of_grows {mode : ListMode} {l : ListId} (h : a.Argument mode l) (ha : a.Sound)
    (hgrows : a.Grows a') : a'.Argument mode l := by
  have hcomplex : ∀ c ∈ (a.list l).complexes, a'.complex c = a.complex c :=
    fun c hc => hgrows.complex (ha.lists h.stored c hc)
  constructor
  · exact Nat.lt_of_lt_of_le h.stored hgrows.lists
  · rw [hgrows.list h.stored]
    exact h.member
  · intro c hc
    rw [hgrows.list h.stored] at hc
    rw [hcomplex c hc]
    exact h.leading c hc
  · intro c hc
    rw [hgrows.list h.stored] at hc
    rw [hcomplex c hc]
    exact h.slotFree c hc
  · intro c hc d hd
    rw [hgrows.list h.stored] at hc
    rw [hcomplex c hc] at hd
    have hstored := (ha.complexes (ha.lists h.stored c hc)).compounds d hd
    exact (h.bare c hc d hd).of_grows hgrows hstored

/-- A sound complex selector stays sound. -/
theorem SoundComplex.of_grows {c : ComplexSelector} (h : a.SoundComplex c)
    (hgrows : a.Grows a') : a'.SoundComplex c where
  compounds d hd := Nat.lt_of_lt_of_le (h.compounds d hd) hgrows.compounds
  ends := h.ends.of_grows hgrows h.compounds
  leading := h.leading
  descend hdescend := by
    rw [hgrows.compound (h.compounds _ List.mem_cons_self)]
    exact h.descend hdescend

/-- A sound compound stays sound. -/
theorem SoundCompound.of_grows {d : Compound} (h : a.SoundCompound d) (ha : a.Sound)
    (hgrows : a.Grows a') : a'.SoundCompound d := by
  have hbears : ∀ s ∈ d.simples, a'.bearsHas s = a.bearsHas s :=
    fun s hs => bearsHas_of_grows hgrows fun l hl => (h.lists s hs l hl).1
  constructor
  · exact h.order
  · refine h.late.imp_of_mem fun {s s'} hs hs' hlate => ?_
    rw [hbears s (Compound.mem_simples hs), hbears s' (Compound.mem_simples hs')]
    exact hlate
  · exact fun s hs mode l hl => (h.arguments s hs mode l hl).of_grows ha hgrows
  · intro l hl
    rw [hgrows.list (h.lists _ hl l rfl).1]
    exact h.hasFree l hl
  · rw [h.containsHas]
    exact any_congr_of_mem fun s hs => (hbears s hs).symm
  · rw [h.nestedHas]
    refine any_congr_of_mem fun s hs => ?_
    rw [hbears s hs]

/-- What a stored list holds is the same after growth. -/
theorem Sound.nests_of_grows (h : a.Sound) (hgrows : a.Grows a') {l inner : ListId}
    (hl : l.index < a.lists.size) (hnests : a'.Nests l inner) : a.Nests l inner := by
  obtain ⟨c, hc, d, hd, s, hs, hinner⟩ := hnests
  rw [hgrows.list hl] at hc
  have hcsize := h.lists hl c hc
  rw [hgrows.complex hcsize] at hd
  rw [hgrows.compound ((h.complexes hcsize).compounds d hd)] at hs
  exact ⟨c, hc, d, hd, s, hs, hinner⟩

/-- What a stored list records about `:has()` stays true of its members. -/
theorem Sound.containsHas_of_grows (h : a.Sound) (hgrows : a.Grows a') {l : ListId}
    (hl : l.index < a.lists.size) :
    (a'.list l).containsHas = (a'.list l).complexes.any a'.complexBearsHas := by
  rw [hgrows.list hl, h.containsHas hl]
  exact any_congr_of_mem fun c hc =>
    (h.complexBearsHas_of_grows hgrows (h.lists hl c hc)).symm

/-! ### Reached lists -/

/-- A list is the argument of a test of a member of another one, and was read in the given way. -/
def NestsAs (a : Arena) (mode : ListMode) (outer inner : ListId) : Prop :=
  ∃ c ∈ (a.list outer).complexes, ∃ d ∈ (a.complex c).compounds,
    ∃ s ∈ (a.compound d).simples, s.argument? = some (mode, inner)

/-- What is reached from a list by going into arguments. -/
def Reaches (a : Arena) : ListId → ListId → Prop :=
  Relation.ReflTransGen a.Nests

/-- A list nests another one in one of the ways of reading an argument. -/
theorem nests_iff {outer inner : ListId} :
    a.Nests outer inner ↔ ∃ mode, a.NestsAs mode outer inner := by
  constructor
  · intro hnests
    obtain ⟨c, hc, d, hd, s, hs, hinner⟩ := hnests
    obtain ⟨mode, hargument⟩ := SimpleSelector.exists_argument? hinner
    exact ⟨mode, c, hc, d, hd, s, hs, hargument⟩
  · intro hnests
    obtain ⟨mode, c, hc, d, hd, s, hs, hargument⟩ := hnests
    exact ⟨c, hc, d, hd, s, hs, SimpleSelector.nestedList?_of_argument? hargument⟩

/-- The list in a test fits the way in which it was read. -/
theorem Sound.argument (ha : a.Sound) {mode : ListMode} {outer inner : ListId}
    (h : a.NestsAs mode outer inner) : a.Argument mode inner := by
  obtain ⟨c, -, d, -, s, hs, hargument⟩ := h
  exact (ha.compounds (lt_of_mem_compound hs)).arguments s hs mode inner hargument

/-- A list in an argument was stored before the list around it. -/
theorem Sound.smaller_of_nests (ha : a.Sound) {outer inner : ListId}
    (h : a.Nests outer inner) : inner.index < outer.index := by
  obtain ⟨c, hc, hrest⟩ := h
  exact ha.smaller (lt_of_mem_list hc) ⟨c, hc, hrest⟩

/-- Lists further inside were stored earlier. -/
theorem Sound.smaller_of_transGen (ha : a.Sound) {outer inner : ListId}
    (h : Relation.TransGen a.Nests outer inner) : inner.index < outer.index := by
  induction h with
  | single hnests => exact ha.smaller_of_nests hnests
  | tail _ hnests ih => exact Nat.lt_trans (ha.smaller_of_nests hnests) ih

/-- A list that is reached is the one to start from, or an argument in one that is reached. -/
theorem Reaches.eq_or_nestsAs {root l : ListId} (h : a.Reaches root l) :
    l = root ∨ ∃ mode outer, a.Reaches root outer ∧ a.NestsAs mode outer l := by
  rcases Relation.ReflTransGen.cases_tail h with rfl | ⟨outer, houter, hnests⟩
  · exact Or.inl rfl
  · obtain ⟨mode, hmode⟩ := nests_iff.mp hnests
    exact Or.inr ⟨mode, outer, houter, hmode⟩

/-- What is reached from a stored list is stored. -/
theorem Sound.stored_of_reaches (ha : a.Sound) {root l : ListId}
    (hroot : root.index < a.lists.size) (h : a.Reaches root l) : l.index < a.lists.size := by
  rcases h.eq_or_nestsAs with rfl | ⟨mode, outer, -, hnests⟩
  · exact hroot
  · exact (ha.argument hnests).stored

/-- The members of what is reached from a stored list are sound. -/
theorem Sound.complex_of_reaches (ha : a.Sound) {root l : ListId}
    (hroot : root.index < a.lists.size) (h : a.Reaches root l) {c : ComplexId}
    (hc : c ∈ (a.list l).complexes) : a.SoundComplex (a.complex c) :=
  ha.complexes (ha.lists (ha.stored_of_reaches hroot h) c hc)

end Arena

end Selectors

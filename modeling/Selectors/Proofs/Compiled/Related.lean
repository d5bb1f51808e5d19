import Selectors.Proofs.Compiled.Sound

/-!
# What a compiled arena records about `:has()`

While parts are stored each records whether `:has()` occurs in it, from what the parts inside of it
have recorded.  The records say what can be found by going into arguments, however these are nested,
and since an argument of `:has()` is stored only with a record that says that there is none, what is
reached from it holds no other.

* `Arena.HoldsHas` and `Arena.AsksRelated` say what the records are about.
* `Sound.containsHas_iff` is the record of a list, by induction on how lists are nested.
* `Arena.RecordsHas` collects the records below a root, `Sound.recordsHas` shows them true.
-/

namespace Selectors.Arena

variable {a : Arena} {root l : ListId}

/-- Some test of a member of the list is `:has()`. -/
def HoldsHas (a : Arena) (l : ListId) : Prop :=
  ∃ c ∈ (a.list l).complexes, ∃ d ∈ (a.complex c).compounds,
    ∃ s ∈ (a.compound d).simples, Compile.isHas s = true

/-- A test that reaches `:has()` through its argument. -/
def ReachesHas (a : Arena) (s : SimpleSelector) : Prop :=
  ∃ l, s.nestedList? = some l ∧ ∃ l', a.Reaches l l' ∧ a.HoldsHas l'

/-- A test that is `:has()`, or reaches it. -/
def AsksRelated (a : Arena) (s : SimpleSelector) : Prop :=
  Compile.isHas s = true ∨ a.ReachesHas s

/-! ### Records of lists -/

/-- A list records `:has()` if it holds one, or if a list right inside of it records one. -/
theorem Sound.containsHas_iff_nests (ha : a.Sound) (hl : l.index < a.lists.size) :
    (a.list l).containsHas = true ↔
      a.HoldsHas l ∨ ∃ inner, a.Nests l inner ∧ (a.list inner).containsHas = true := by
  rw [ha.containsHas hl, List.any_eq_true]
  constructor
  · intro hany
    obtain ⟨c, hc, hmember⟩ := hany
    obtain ⟨d, hd, hcompound⟩ := List.any_eq_true.mp hmember
    rw [(ha.compound_of_mem hl hc hd).containsHas, List.any_eq_true] at hcompound
    obtain ⟨s, hs, hbears⟩ := hcompound
    rcases bearsHas_iff.mp hbears with hhas | ⟨inner, hinner, hrecord⟩
    · exact Or.inl ⟨c, hc, d, hd, s, hs, hhas⟩
    · exact Or.inr ⟨inner, ⟨c, hc, d, hd, s, hs, hinner⟩, hrecord⟩
  · intro hsome
    have hrecorded : ∃ c ∈ (a.list l).complexes, ∃ d ∈ (a.complex c).compounds,
        ∃ s ∈ (a.compound d).simples, a.bearsHas s = true := by
      rcases hsome with ⟨c, hc, d, hd, s, hs, hhas⟩ | ⟨inner, hnests, hrecord⟩
      · exact ⟨c, hc, d, hd, s, hs, bearsHas_iff.mpr (Or.inl hhas)⟩
      · obtain ⟨c, hc, d, hd, s, hs, hinner⟩ := hnests
        exact ⟨c, hc, d, hd, s, hs, bearsHas_iff.mpr (Or.inr ⟨inner, hinner, hrecord⟩)⟩
    obtain ⟨c, hc, d, hd, s, hs, hbears⟩ := hrecorded
    refine ⟨c, hc, List.any_eq_true.mpr ⟨d, hd, ?_⟩⟩
    rw [(ha.compound_of_mem hl hc hd).containsHas, List.any_eq_true]
    exact ⟨s, hs, hbears⟩

/-- **A list records `:has()`** exactly if one is reached from it.  Lists inside were stored before
the list around them. -/
theorem Sound.containsHas_iff (ha : a.Sound) (hl : l.index < a.lists.size) :
    (a.list l).containsHas = true ↔ ∃ l', a.Reaches l l' ∧ a.HoldsHas l' := by
  constructor
  · intro hrecord
    induction hindex : l.index using Nat.strongRecOn generalizing l with
    | _ n ih =>
        rcases (ha.containsHas_iff_nests hl).mp hrecord with hholds | ⟨inner, hnests, hrecord'⟩
        · exact ⟨l, .refl, hholds⟩
        · have hsmaller := ha.smaller_of_nests hnests
          obtain ⟨l', hreaches, hholds⟩ :=
            ih inner.index (hindex ▸ hsmaller) (Nat.lt_trans hsmaller hl) hrecord' rfl
          exact ⟨l', .head hnests hreaches, hholds⟩
  · intro hsome
    obtain ⟨l', hreaches, hholds⟩ := hsome
    induction hreaches using Relation.ReflTransGen.head_induction_on with
    | refl => exact (ha.containsHas_iff_nests hl).mpr (Or.inl hholds)
    | head hnests _ ih =>
        have hinner := Nat.lt_trans (ha.smaller_of_nests hnests) hl
        exact (ha.containsHas_iff_nests hl).mpr (Or.inr ⟨_, hnests, ih hinner⟩)

/-! ### Records of compounds -/

/-- A test of a compound bears a `:has()` exactly if it asks for related elements. -/
theorem bearsHas_iff_asksRelated (ha : a.Sound) {d : Compound} (hd : a.SoundCompound d)
    {s : SimpleSelector} (hs : s ∈ d.simples) : a.bearsHas s = true ↔ a.AsksRelated s := by
  rw [bearsHas_iff]
  refine or_congr_right (exists_congr fun l => and_congr_right fun hl => ?_)
  exact ha.containsHas_iff (hd.lists s hs l hl).1

/-- The argument of `:has()` records none. -/
theorem Sound.hasFree (ha : a.Sound) {outer : ListId} (h : a.NestsAs .relative outer l) :
    l.index < a.lists.size ∧ (a.list l).containsHas = false := by
  refine ⟨(ha.argument h).stored, ?_⟩
  obtain ⟨c, -, d, -, s, hs, hargument⟩ := h
  rw [SimpleSelector.eq_has_of_relative hargument] at hs
  exact (ha.compounds (lt_of_mem_compound hs)).hasFree l hs

/-- **Exact records** of all that is reached from the root, and no `:has()` in `:has()`. -/
structure RecordsHas (a : Arena) (root : ListId) : Prop where
  /-- A compound records whether some test is or reaches `:has()`. -/
  compounds : ∀ {l}, a.Reaches root l → ∀ c ∈ (a.list l).complexes,
    ∀ d ∈ (a.complex c).compounds,
      ((a.compound d).containsHas = true ↔ ∃ s ∈ (a.compound d).simples, a.AsksRelated s)
  /-- It records separately whether some test other than `:has()` reaches one. -/
  nested : ∀ {l}, a.Reaches root l → ∀ c ∈ (a.list l).complexes,
    ∀ d ∈ (a.complex c).compounds,
      ((a.compound d).hasNestedHas = true ↔
        ∃ s ∈ (a.compound d).simples, Compile.isHas s = false ∧ a.ReachesHas s)
  /-- A list records what its compounds record. -/
  lists : ∀ {l}, a.Reaches root l →
    ((a.list l).containsHas = true ↔ ∃ c ∈ (a.list l).complexes,
      ∃ d ∈ (a.complex c).compounds, (a.compound d).containsHas = true)
  /-- Tests that are or reach `:has()` are made after all others. -/
  late : ∀ {l}, a.Reaches root l → ∀ c ∈ (a.list l).complexes,
    ∀ d ∈ (a.complex c).compounds,
      (a.compound d).matchOrder.Pairwise fun i j =>
        ∀ s, (a.compound d).simples[i]? = some s → ∀ s', (a.compound d).simples[j]? = some s' →
          a.AsksRelated s → a.AsksRelated s'
  /-- Nothing that is reached from an argument of `:has()` holds one. -/
  never : ∀ {outer l l'}, a.Reaches root outer → a.NestsAs .relative outer l →
    a.Reaches l l' → ¬a.HoldsHas l'

/-- The records of a sound arena are exact. -/
theorem Sound.recordsHas (ha : a.Sound) (hroot : root.index < a.lists.size) :
    a.RecordsHas root where
  compounds hl c hc d hd := by
    have hsound := ha.compound_of_mem (ha.stored_of_reaches hroot hl) hc hd
    rw [hsound.containsHas, List.any_eq_true]
    exact exists_congr fun s => and_congr_right (bearsHas_iff_asksRelated ha hsound)
  nested hl c hc d hd := by
    have hsound := ha.compound_of_mem (ha.stored_of_reaches hroot hl) hc hd
    rw [hsound.nestedHas, List.any_eq_true]
    refine exists_congr fun s => and_congr_right fun hs => ?_
    rw [Bool.and_eq_true, Bool.not_eq_true', bearsHas_iff_asksRelated ha hsound hs, and_comm]
    refine and_congr_right fun hno => or_iff_right ?_
    rw [hno]
    exact Bool.false_ne_true
  lists hl := by
    rw [ha.containsHas (ha.stored_of_reaches hroot hl), List.any_eq_true]
    exact exists_congr fun c => and_congr_right fun _ => List.any_eq_true
  late hl c hc d hd := by
    have hsound := ha.compound_of_mem (ha.stored_of_reaches hroot hl) hc hd
    refine (List.pairwise_filterMap.mp hsound.late).imp fun {i j} hlate s hs s' hs' => ?_
    rw [← bearsHas_iff_asksRelated ha hsound (List.mem_of_getElem? hs),
      ← bearsHas_iff_asksRelated ha hsound (List.mem_of_getElem? hs')]
    exact hlate s hs s' hs'
  never _ hnests hreaches hholds := by
    obtain ⟨hstored, hfree⟩ := ha.hasFree hnests
    have hrecord := (ha.containsHas_iff hstored).mpr ⟨_, hreaches, hholds⟩
    rw [hfree] at hrecord
    cases hrecord

end Selectors.Arena

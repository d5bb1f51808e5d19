import Selectors.Proofs.Query.Followed

/-!
# The result of following a member

A member that is followed goes from level to level: what one level leads to is sorted and freed of
repeats, tested and handed on, until nothing is left or the last compound is reached.  A row of the
member is a path through these levels.  Several rows may share nodes, and one node may stand at
several levels, but what comes out is each last node of a row once, in document order.

* `Matcher.Pursued` are the memories in which a query follows its members, after it has tested
  candidates and followed other members.
* `Matcher.returns_followMember_ordered` is the order of what is found.
* `Matcher.followMember_iff_elementRow` says that exactly the rows are found that begin with an
  element below the root of the tree.
-/

namespace Selectors

namespace Matcher

variable {t : Tree} {m : Matcher} {F : Routes} {l : ListId} {id : ComplexId}

/-! ### Order -/

/-- What is followed from nodes in document order is in document order: every level is sorted. -/
theorem returns_followFrom_ordered (h : t.WellFormed) (hm : m.tree = t.view)
    (steps : List (Combinator × CompoundId)) {ns : List NodeId} (hns : ns.Pairwise t.Precedes) :
    Returns (m.followFrom steps ns) (·.Pairwise t.Precedes) := by
  induction steps generalizing ns with
  | nil => exact Returns.pure hns
  | cons step more ih =>
      obtain ⟨q, d⟩ := step
      refine Returns.bind (Returns.any _) fun next _ => ?_
      dsimp only
      split
      · exact Returns.pure List.Pairwise.nil
      · rw [hm]
        exact ih (h.pairwise_sortNodes next)

/-- What is followed is found in document order. -/
theorem returns_followMember_ordered (h : t.WellFormed) (hm : m.tree = t.view)
    (reference : NodeId) (id : ComplexId) :
    Returns (m.followMember reference id) (·.Pairwise t.Precedes) := by
  refine Returns.bind (Returns.filterM _ _) fun start hstart => ?_
  refine returns_followFrom_ordered h hm _ ?_
  rw [hm, TreeView.elementsBelow, h.view_descendants] at hstart
  exact ((h.pairwise_descendants _).sublist List.filter_sublist).sublist hstart

/-! ### Memories -/

/-- The memory after some members have been tested and some have been followed. -/
inductive Pursued (m : Matcher) (l : ListId) : MatchMemory → Prop
  | used {s : MatchMemory} (used : Used m l s) : Pursued m l s
  | followed {s : MatchMemory} (pursued : Pursued m l s) {id : ComplexId}
      (hid : id ∈ (m.arena.list l).complexes)
      (hdescend : (m.arena.complex id).direction = .descend) (reference : NodeId) :
      Pursued m l (runFrom (m.followMember reference id) s).2

/-- **Testing and following leave right memories.** -/
theorem Pursued.recalls (H : Infallible t m F) (hl : l.index < m.arena.listCount)
    {s : MatchMemory} (hs : Pursued m l s) :
    Recalls t m (m.callFrame F l) m.arena.listCount s := by
  induction hs with
  | used hused => exact hused.recalls H hl
  | followed _ hid hdescend reference ih =>
      obtain ⟨hslot, -⟩ := sound_of_descend H.described.toSound (Arena.lt_of_mem_list hid) hid
        hdescend
      obtain ⟨found, hfound, -⟩ := H.yields_followMember hid hslot reference
      obtain ⟨s', hrun, hs'⟩ := hfound _ ih
      rw [hrun]
      exact hs'

/-! ### Rows -/

/-- What a member is followed to are the ends of its rows of elements that begin below a root. -/
theorem exists_leadsRight_iff (h : t.WellFormed) (hm : m.tree = t.view)
    (hslot : Combinator.slot ∉ (m.arena.complex id).combinators) {root n : NodeId} :
    (∃ a ∈ m.tree.elementsBelow root, m.Passes m.shadow (m.arena.complex id).first a ∧
        LeadsRight m (m.arena.complex id).joined a n) ↔
      ∃ e, ElementRow t m m.shadow (m.arena.complex id) e ∧ t.Below (e 0) root ∧
        e (m.arena.complex id).combinators.length = n := by
  constructor
  · intro hleads
    obtain ⟨a, ha, hleads⟩ := hleads
    rw [hm] at ha
    obtain ⟨helement, hbelow⟩ := (mem_elementsBelow h).mp ha
    obtain ⟨e, hrow, rfl, hlast⟩ := (elementRow_iff_leadsRight h hm hslot helement).mpr hleads
    exact ⟨e, hrow, hbelow, hlast⟩
  · intro hrow
    obtain ⟨e, hrow, hbelow, hlast⟩ := hrow
    have helement := hrow.elements 0 (Nat.zero_le _)
    have hmem : e 0 ∈ m.tree.elementsBelow root := by
      rw [hm]
      exact (mem_elementsBelow h).mpr ⟨helement, hbelow⟩
    have hleads := (elementRow_iff_leadsRight h hm hslot helement).mp ⟨e, hrow, rfl, hlast⟩
    exact ⟨e 0, hmem, hleads⟩

/-- The last node of a row of elements is an element, in the tree where the row begins. -/
theorem ElementRow.last (h : t.WellFormed) {c : ComplexSelector} {σ : ShadowScope}
    {e : Nat → NodeId} (hrow : ElementRow t m σ c e) (hslot : Combinator.slot ∉ c.combinators)
    {reference : NodeId} (hbelow : t.Below (e 0) (t.rootOf reference)) :
    t.view.isElement (e c.combinators.length) = true ∧
      t.rootOf (e c.combinators.length) = t.rootOf reference := by
  refine ⟨hrow.elements _ (Nat.le_refl _), ?_⟩
  rw [hrow.toRow.rootOf_last h hslot, h.rootOf_of_below hbelow,
    h.rootOf_of_root (h.parent_rootOf reference)]

/-- **Following a member** finds, in document order and each once, the elements in the tree of the
reference at which some row of elements ends that begins below the root of the tree. -/
theorem followMember_iff_elementRow (ht : t.Proper) {text : String} {s : CompiledSelector}
    (hs : compile text = .ok s) (htree : m.tree = t.view) (harena : m.arena = s.arena)
    (hlenient : m.strict = false) (hplain : ¬m.arena.NamesPrefix)
    (hid : id ∈ (m.arena.list l).complexes)
    (hdescend : (m.arena.complex id).direction = .descend) {memory : MatchMemory}
    (hpursued : m.Pursued l memory) (reference : NodeId) :
    ∃ found, (runFrom (m.followMember reference id) memory).1 = .ok found ∧
      found.Pairwise t.Precedes ∧ found.Nodup ∧
      ∀ n, n ∈ found ↔ t.view.isElement n = true ∧ t.rootOf n = t.rootOf reference ∧
        ∃ e, ElementRow t m m.shadow (m.arena.complex id) e ∧
          t.Below (e 0) (t.rootOf reference) ∧
          e (m.arena.complex id).combinators.length = n := by
  have h := ht.wellFormed
  obtain ⟨F, hF, -⟩ := compile_describes hs
  rw [← harena] at hF
  have H : Infallible t m F :=
    { tree := h, view := htree, described := hF, lenient := hlenient, plain := hplain }
  have hl := Arena.lt_of_mem_list hid
  obtain ⟨hslot, -⟩ := sound_of_descend hF.toSound hl hid hdescend
  obtain ⟨found, hfound, hmem⟩ := H.yields_followMember hid hslot reference
  obtain ⟨memory', hrun, -⟩ := hfound memory (hpursued.recalls H hl)
  have horder := (returns_followMember_ordered h htree reference id).of_run hrun
  have hroot : m.tree.rootOf reference = t.rootOf reference := by
    rw [htree]
    rfl
  refine ⟨found, congrArg Prod.fst hrun, horder, h.nodup_of_pairwise horder, fun n => ?_⟩
  rw [hmem n, hroot, exists_leadsRight_iff h htree hslot]
  constructor
  · intro hrow
    obtain ⟨e, hrow, hbelow, rfl⟩ := hrow
    obtain ⟨helement, hsame⟩ := hrow.last h hslot hbelow
    exact ⟨helement, hsame, e, hrow, hbelow, rfl⟩
  · intro hn
    exact hn.2.2

/-- In the attached box one row leads along `#a > :first-child + p`, and it ends at the second
paragraph. -/
theorem followMember_iff_elementRow_attachedBox :
    ∃ s, compile "#a > :first-child + p" = .ok s ∧
      let m : Matcher := { tree := Tree.attachedBox.view, arena := s.arena, root := s.root }
      (m.arena.complex ⟨0⟩).direction = .descend ∧
        (runFrom (m.followMember 2 ⟨0⟩) {}).1 = .ok [3] ∧
        ∃ e, ElementRow Tree.attachedBox m none (m.arena.complex ⟨0⟩) e ∧
          Tree.attachedBox.Below (e 0) 0 ∧ e 2 = 3 := by
  let s := (compile "#a > :first-child + p").toOption.get (by decide +kernel)
  have hs : compile "#a > :first-child + p" = .ok s := by
    decide +kernel
  let m : Matcher := { tree := Tree.attachedBox.view, arena := s.arena, root := s.root }
  have hrun : (runFrom (m.followMember 2 ⟨0⟩) {}).1 = .ok [3] := by
    decide +kernel
  have hplain : ¬m.arena.NamesPrefix := by
    decide +kernel
  have hid : ⟨0⟩ ∈ (m.arena.list ⟨0⟩).complexes := by
    decide +kernel
  have hdescend : (m.arena.complex ⟨0⟩).direction = .descend := by
    decide +kernel
  have hlength : (m.arena.complex ⟨0⟩).combinators.length = 2 := by
    decide +kernel
  have hroot : Tree.attachedBox.rootOf 2 = 0 := by
    decide +kernel
  obtain ⟨found, hfound, -, -, hmem⟩ := followMember_iff_elementRow (m := m)
    Tree.attachedBox_proper hs rfl rfl rfl hplain hid hdescend (.used .new) 2
  rw [hrun] at hfound
  cases hfound
  obtain ⟨-, -, e, hrow, hbelow, hlast⟩ := (hmem 3).mp (List.mem_singleton.mpr rfl)
  rw [hlength] at hlast
  rw [hroot] at hbelow
  exact ⟨s, hs, hdescend, hrun, e, hrow, hbelow, hlast⟩

end Matcher

end Selectors

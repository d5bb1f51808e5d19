import Selectors.Proofs.Query.Engine
import Selectors.Proofs.Compiled.Compiling
import Selectors.Proofs.Tree.Cursor
import Selectors.Proofs.Tree.Order

/-!
# The order of results

A query collects from one walk and from any number of members that are followed from their first
compound.  What is followed may lead anywhere in the tree and passes through a cursor, and all is
sorted at the end.  Whatever the tests say, the results are elements below the reference, each once
and in document order, and giving up early changes nothing but their number.

* `Matcher.mem_keepBelow`: the cursor keeps what lies below its root.
* `Matcher.returns_matchesBelow` is the order of what a query returns, and
  `Matcher.matchesBelow_first` compares the two modes.
* `Engine.Reached` are the engines that calls lead to; `Engine.queryAll_inDocumentOrder` is the
  result for them.
-/

namespace Selectors

namespace Matcher

variable {t : Tree} {m : Matcher}

/-! ### What lies below the reference -/

/-- **The cursor keeps exactly what lies below its root**, wherever it stands. -/
theorem mem_keepBelow (h : t.WellFormed) (hm : m.tree = t.view) {c : Cursor} (hc : c.OnPath t)
    {ns : List NodeId} {n : NodeId} :
    n ∈ m.keepBelow c ns ↔ n ∈ ns ∧ t.Below n c.root := by
  induction ns generalizing c with
  | nil => simp [keepBelow]
  | cons x ns ih =>
      rw [keepBelow, hm]
      by_cases hroot : x = c.root
      · rw [if_pos hroot, ih hc, List.mem_cons]
        constructor
        · rintro ⟨hn, hbelow⟩
          exact ⟨Or.inr hn, hbelow⟩
        · rintro ⟨rfl | hn, hbelow⟩
          · rw [hroot] at hbelow
            exact absurd hbelow (h.not_below_self c.root)
          · exact ⟨hn, hbelow⟩
      rw [if_neg hroot]
      rcases Cursor.moveTo_spec h hc x with ⟨hout, hmove⟩ | ⟨d, hin, hmove, hdroot, -, hd⟩
      · rw [hmove]
        dsimp only
        rw [ih hc, List.mem_cons]
        constructor
        · rintro ⟨hn, hbelow⟩
          exact ⟨Or.inr hn, hbelow⟩
        · rintro ⟨rfl | hn, hbelow⟩
          · exact absurd (Or.inr hbelow) hout
          · exact ⟨hn, hbelow⟩
      · rw [hmove]
        dsimp only
        rw [List.mem_cons, ih hd, hdroot, List.mem_cons]
        have hx : t.Below x c.root := hin.resolve_left hroot
        constructor
        · rintro (rfl | ⟨hn, hbelow⟩)
          · exact ⟨Or.inl rfl, hx⟩
          · exact ⟨Or.inr hn, hbelow⟩
        · rintro ⟨rfl | hn, hbelow⟩
          · exact Or.inl rfl
          · exact Or.inr ⟨hn, hbelow⟩

/-- To the right every combinator but a slot leads to elements. -/
theorem isElement_of_mem_rightOf (v : TreeView) {q : Combinator} (hq : q ≠ .slot) {a n : NodeId}
    (hn : n ∈ v.rightOf a q) : v.isElement n = true := by
  cases q with
  | descendant => exact (List.mem_filter.mp hn).2
  | child => exact (List.mem_filter.mp hn).2
  | nextSibling => exact List.find?_some (Option.mem_toList.mp hn)
  | subsequentSibling => exact (List.mem_filter.mp hn).2
  | slot => exact absurd rfl hq

/-- A step leads to elements. -/
theorem returns_step {q : Combinator} (hq : q ≠ .slot) (c : CompoundId) (ns : List NodeId) :
    Returns (m.step q c ns) fun found => ∀ n ∈ found, m.tree.isElement n = true := by
  refine Returns.flatMapM fun a _ => (Returns.filterM _ _).weaken fun found hsub n hn => ?_
  exact isElement_of_mem_rightOf m.tree hq (hsub.subset hn)

/-- Steps from elements lead to elements. -/
theorem returns_followFrom (steps : List (Combinator × CompoundId))
    (hsteps : Combinator.slot ∉ steps.map Prod.fst) {ns : List NodeId}
    (hns : ∀ n ∈ ns, m.tree.isElement n = true) :
    Returns (m.followFrom steps ns) fun found => ∀ n ∈ found, m.tree.isElement n = true := by
  induction steps generalizing ns with
  | nil => exact Returns.pure hns
  | cons step more ih =>
      obtain ⟨q, c⟩ := step
      rw [List.map_cons, List.mem_cons, not_or] at hsteps
      refine Returns.bind (returns_step (Ne.symm hsteps.1) c ns) fun found hfound => ?_
      dsimp only
      split
      · exact Returns.pure fun n hn => absurd hn List.not_mem_nil
      · refine ih hsteps.2 fun n hn => hfound n ?_
        exact (TreeView.mem_sortNodes m.tree).mp hn

/-- Following a member leads to elements. -/
theorem returns_followMember (reference : NodeId) {id : ComplexId}
    (hslot : Combinator.slot ∉ (m.arena.complex id).combinators) :
    Returns (m.followMember reference id) fun found =>
      ∀ n ∈ found, m.tree.isElement n = true := by
  refine Returns.bind (Returns.filterM _ _) fun start hstart => ?_
  refine returns_followFrom _ hslot fun n hn => ?_
  exact (List.mem_filter.mp (hstart.subset hn)).2

/-- What is followed and kept are elements below the reference. -/
theorem returns_followedMatches (h : t.WellFormed) (hm : m.tree = t.view) (reference : NodeId)
    {members : List ComplexId}
    (hslot : ∀ id ∈ members, Combinator.slot ∉ (m.arena.complex id).combinators) :
    Returns (m.followedMatches reference members) fun found =>
      ∀ n ∈ found, m.tree.isElement n = true ∧ t.Below n reference := by
  refine Returns.flatMapM fun id hid => ?_
  refine Returns.bind (returns_followMember reference (hslot id hid)) fun found hfound => ?_
  refine Returns.pure fun n hn => ?_
  obtain ⟨hn, hbelow⟩ := (mem_keepBelow h hm (Cursor.onPath_start reference)).mp hn
  exact ⟨hfound n hn, hbelow⟩

/-! ### Candidates -/

/-- What is collected stands in the order of the candidates. -/
theorem returns_collect (members : List ComplexId) (firstOnly : Bool) (ns : List NodeId) :
    Returns (m.collect members firstOnly ns) fun found => found.Sublist ns := by
  induction ns with
  | nil => exact Returns.pure (List.Sublist.refl [])
  | cons n ns ih =>
      refine Returns.bind (Returns.any _) fun b _ => ?_
      cases b with
      | false => exact ih.weaken fun found hfound => hfound.cons n
      | true =>
          cases firstOnly with
          | true => exact Returns.pure ((List.nil_sublist ns).cons_cons n)
          | false =>
              refine Returns.bind ih fun found hfound => Returns.pure ?_
              exact hfound.cons_cons n

/-- **Giving up early** finds the first of what would be found, if that is found without failure. -/
theorem collect_first (members : List ComplexId) (ns : List NodeId) {s s' : MatchMemory}
    {found : List NodeId} (hrun : runFrom (m.collect members false ns) s = (.ok found, s')) :
    ∃ s'', runFrom (m.collect members true ns) s = (.ok (found.take 1), s'') := by
  induction ns generalizing s found with
  | nil =>
      cases hrun
      exact ⟨_, rfl⟩
  | cons n ns ih =>
      obtain ⟨b, s₁, hb, hrun⟩ := exists_of_runFrom_bind hrun
      cases b with
      | false =>
          obtain ⟨s'', hfirst⟩ := ih hrun
          exact ⟨s'', (runFrom_bind_ok hb).trans hfirst⟩
      | true =>
          obtain ⟨more, s₂, -, hrun⟩ := exists_of_runFrom_bind hrun
          cases hrun
          exact ⟨s₁, runFrom_bind_ok hb⟩

/-- What is found among the candidates is in the order of the elements below the reference. -/
theorem returns_candidateMatches (reference : NodeId) (members : List ComplexId)
    (firstOnly : Bool) :
    Returns (m.candidateMatches reference members firstOnly) fun found =>
      found.Sublist (m.tree.elementsBelow reference) := by
  unfold candidateMatches
  split
  · exact Returns.pure (List.nil_sublist _)
  · exact returns_collect members firstOnly _

/-- The first of the candidates that match is the first of all of them. -/
theorem candidateMatches_first (reference : NodeId) (members : List ComplexId)
    {s s' : MatchMemory} {found : List NodeId}
    (hrun : runFrom (m.candidateMatches reference members false) s = (.ok found, s')) :
    ∃ s'', runFrom (m.candidateMatches reference members true) s =
      (.ok (found.take 1), s'') := by
  unfold candidateMatches at hrun ⊢
  split at hrun
  · rename_i hempty
    cases hrun
    exact ⟨s, by rw [if_pos hempty]; rfl⟩
  · rename_i hempty
    rw [if_neg hempty]
    exact collect_first members _ hrun

/-! ### What a query returns -/

/-- The members that are followed from their first compound. -/
def followedMembers (m : Matcher) : List ComplexId :=
  (m.arena.list m.root).complexes.filter m.isFollowed

/-- The members that are tested on each candidate. -/
def testedMembers (m : Matcher) : List ComplexId :=
  (m.arena.list m.root).complexes.filter fun id => !m.isFollowed id

/-- A member to be read from its first compound has no slot combinator, and that compound has an
id. -/
theorem sound_of_descend (ha : m.arena.Sound) {l : ListId} (hl : l.index < m.arena.listCount)
    {id : ComplexId} (hid : id ∈ (m.arena.list l).complexes)
    (hdescend : (m.arena.complex id).direction = .descend) :
    Combinator.slot ∉ (m.arena.complex id).combinators ∧
      ∃ s ∈ (m.arena.compound (m.arena.complex id).first).simples, Compile.isId s = true :=
  ((ha.complexes (ha.lists hl id hid)).descend hdescend).2.2

/-- Members that are followed are such members. -/
theorem sound_of_followed (ha : m.arena.Sound) {l : ListId} (hl : l.index < m.arena.listCount)
    {id : ComplexId} (hid : id ∈ (m.arena.list l).complexes)
    (hfollowed : m.isFollowed id = true) :
    Combinator.slot ∉ (m.arena.complex id).combinators ∧
      ∃ s ∈ (m.arena.compound (m.arena.complex id).first).simples, Compile.isId s = true := by
  have hdescend : (m.arena.complex id).direction = .descend := by
    unfold isFollowed at hfollowed
    simp only [Bool.and_eq_true, beq_iff_eq] at hfollowed
    exact hfollowed.1
  exact sound_of_descend ha hl hid hdescend

/-- The first result, or all. -/
def cut (firstOnly : Bool) (found : List NodeId) : List NodeId :=
  if firstOnly then found.take 1 else found

/-- Below what is no reference nothing is found. -/
theorem matchesBelow_of_not_reference {reference : NodeId} (href : m.isReference reference = false)
    (firstOnly : Bool) : m.matchesBelow reference firstOnly = pure [] := by
  unfold matchesBelow
  rw [href]
  rfl

/-- Without members that are followed the candidates are tested one by one. -/
theorem matchesBelow_of_tested {reference : NodeId} (href : m.isReference reference = true)
    (hnone : m.followedMembers = []) (firstOnly : Bool) :
    m.matchesBelow reference firstOnly =
      cut firstOnly <$> m.candidateMatches reference m.testedMembers firstOnly := by
  unfold matchesBelow
  rw [href, List.partition_eq_filter_filter]
  unfold followedMembers at hnone
  simp only [hnone, List.isEmpty_nil, Bool.and_true, Bool.not_true]
  rfl

/-- With members that are followed, what they lead to is sorted in among the candidates that
match. -/
theorem matchesBelow_of_followed {reference : NodeId} (href : m.isReference reference = true)
    (hsome : m.followedMembers ≠ []) (firstOnly : Bool) :
    m.matchesBelow reference firstOnly = do
      let found ← m.candidateMatches reference m.testedMembers false
      let more ← m.followedMatches reference m.followedMembers
      return cut firstOnly (m.tree.sortNodes (found ++ more)) := by
  have hempty : m.followedMembers.isEmpty = false := by
    simpa using hsome
  unfold followedMembers at hempty ⊢
  unfold matchesBelow
  rw [href, List.partition_eq_filter_filter]
  simp only [hempty, Bool.and_false, Bool.not_true]
  rfl

/-- **A query returns elements below the reference in document order**, each once. -/
theorem returns_matchesBelow (h : t.WellFormed) (hm : m.tree = t.view) (reference : NodeId)
    (hslot : ∀ id ∈ m.followedMembers, Combinator.slot ∉ (m.arena.complex id).combinators) :
    Returns (m.matchesBelow reference false) fun found =>
      found.Pairwise t.Precedes ∧
        ∀ n ∈ found, t.view.isElement n = true ∧ t.Below n reference := by
  have hcandidates : ∀ found : List NodeId, found.Sublist (m.tree.elementsBelow reference) →
      found.Pairwise t.Precedes ∧
        ∀ n ∈ found, t.view.isElement n = true ∧ t.Below n reference := by
    intro found hfound
    rw [hm, TreeView.elementsBelow, h.view_descendants] at hfound
    constructor
    · have hwalk := h.pairwise_descendants reference
      exact (hwalk.sublist List.filter_sublist).sublist hfound
    · intro n hn
      obtain ⟨hbelow, helement⟩ := List.mem_filter.mp (hfound.subset hn)
      exact ⟨helement, h.mem_descendants.mp hbelow⟩
  cases href : m.isReference reference with
  | false =>
      rw [matchesBelow_of_not_reference href]
      exact Returns.pure ⟨List.Pairwise.nil, fun n hn => absurd hn List.not_mem_nil⟩
  | true =>
      by_cases hnone : m.followedMembers = []
      · rw [matchesBelow_of_tested href hnone, map_eq_pure_bind]
        refine Returns.bind (returns_candidateMatches _ _ _) fun found hfound => ?_
        exact Returns.pure (hcandidates found hfound)
      · rw [matchesBelow_of_followed href hnone]
        refine Returns.bind (returns_candidateMatches _ _ _) fun found hfound => ?_
        refine Returns.bind (returns_followedMatches h hm _ hslot) fun more hmore => ?_
        refine Returns.pure ⟨?_, ?_⟩
        · rw [hm]
          exact h.pairwise_sortNodes _
        · intro n hn
          rcases List.mem_append.mp ((TreeView.mem_sortNodes m.tree).mp hn) with hn | hn
          · exact (hcandidates found hfound).2 n hn
          · rw [← hm]
            exact hmore n hn

/-- **The two modes agree**: what all results begin with is the first result. -/
theorem matchesBelow_first (reference : NodeId) {s s' : MatchMemory} {found : List NodeId}
    (hrun : runFrom (m.matchesBelow reference false) s = (.ok found, s')) :
    ∃ s'', runFrom (m.matchesBelow reference true) s = (.ok (found.take 1), s'') := by
  cases href : m.isReference reference with
  | false =>
      rw [matchesBelow_of_not_reference href] at hrun ⊢
      cases hrun
      exact ⟨_, rfl⟩
  | true =>
      by_cases hnone : m.followedMembers = []
      · rw [matchesBelow_of_tested href hnone, map_eq_pure_bind] at hrun ⊢
        obtain ⟨all, s₁, hall, hrun⟩ := exists_of_runFrom_bind hrun
        cases hrun
        obtain ⟨s'', hfirst⟩ := candidateMatches_first reference _ hall
        refine ⟨s'', (runFrom_bind_ok hfirst).trans ?_⟩
        simp [cut, List.take_take]
      · rw [matchesBelow_of_followed href hnone] at hrun ⊢
        obtain ⟨all, s₁, hall, hrun⟩ := exists_of_runFrom_bind hrun
        obtain ⟨more, s₂, hmore, hrun⟩ := exists_of_runFrom_bind hrun
        cases hrun
        exact ⟨_, (runFrom_bind_ok hall).trans (runFrom_bind_ok hmore)⟩

end Matcher

namespace Engine

/-- What a query follows has no slot combinator. -/
theorem slot_not_mem_of_followed {text : String} {s : CompiledSelector}
    (hs : Selectors.compile text = .ok s) {m : Matcher} (harena : m.arena = s.arena)
    (hroot : m.root = s.root) :
    ∀ id ∈ m.followedMembers, Combinator.slot ∉ (m.arena.complex id).combinators := by
  intro id hid
  obtain ⟨F, hF, hstored⟩ := compile_describes hs
  obtain ⟨hmember, hfollowed⟩ := List.mem_filter.mp hid
  rw [← harena] at hF
  rw [← harena, ← hroot] at hstored
  exact (Matcher.sound_of_followed hF.toSound hstored hmember hfollowed).1

/-- **Results are in document order, each once, and below the reference**, and asking for the first
one gives the head of them all. -/
theorem queryAll_inDocumentOrder {t : Tree} (ht : t.Proper) {e : Engine} (he : e.Reached)
    (settings : Settings) (text : String) (reference : NodeId) {ns : List NodeId}
    (hall : (e.queryAll t.view settings text reference).1.result = .ok ns) :
    ns.Pairwise t.Precedes ∧ ns.Nodup ∧
      (∀ n ∈ ns, t.view.isElement n = true ∧ t.Below n reference) ∧
      (e.queryFirst t.view settings text reference).1.result = .ok ns.head? := by
  have h := ht.wellFormed
  have hrun : (e.run t.view settings text reference .all).1.result = .ok ns := hall
  rw [he.run_result] at hrun
  cases hs : Selectors.compile text with
  | error err =>
      rw [hs] at hrun
      cases hrun
  | ok s =>
      rw [hs] at hrun
      let m := (Query.of t.view s reference settings).matcher
      rcases hrun' : runFrom (m.matchesBelow reference false) {} with ⟨result, memory⟩
      have hresult : result = .ok ns := by
        rw [← hrun]
        exact (congrArg Prod.fst hrun').symm
      subst hresult
      have hslot := slot_not_mem_of_followed hs (m := m) rfl rfl
      have hreturns := Matcher.returns_matchesBelow h rfl reference hslot
      obtain ⟨horder, hbelow⟩ := hreturns.of_run hrun'
      refine ⟨horder, h.nodup_of_pairwise horder, hbelow, ?_⟩
      obtain ⟨memory', hfirst⟩ := Matcher.matchesBelow_first reference hrun'
      have hone : (e.run t.view settings text reference .first).1.result = .ok (ns.take 1) := by
        rw [he.run_result_of_ok t.view settings hs]
        exact congrArg Prod.fst hfirst
      change ((e.run t.view settings text reference .first).1.result).map List.head? = _
      rw [hone]
      cases ns with
      | nil => rfl
      | cons n ns => rfl

/-- A list of two members on the attached box: both results are found, in order, each once. -/
theorem queryAll_inDocumentOrder_attachedBox :
    (queryAll {} Tree.attachedBox.view {} "p, div > p" 0).1.result = .ok [2, 3] ∧
      [2, 3].Pairwise Tree.attachedBox.Precedes ∧ [2, 3].Nodup ∧
      (∀ n ∈ [2, 3], Tree.attachedBox.view.isElement n = true ∧ Tree.attachedBox.Below n 0) ∧
      (queryFirst {} Tree.attachedBox.view {} "p, div > p" 0).1.result = .ok (some 2) :=
  have hall : (queryAll {} Tree.attachedBox.view {} "p, div > p" 0).1.result = .ok [2, 3] := by
    decide +kernel
  ⟨hall, queryAll_inDocumentOrder Tree.attachedBox_proper .new {} "p, div > p" 0 hall⟩

end Engine

end Selectors

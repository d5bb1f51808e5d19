import Selectors.Proofs.Query.Followed

/-!
# What a query finds, member by member

Some members of a selector are tested on every candidate, and the others are followed from their
first compounds.  Either way each member brings nodes of its own, whatever members stand beside it,
and a query puts them together: its result is the increasing list of what some member finds.

* `Matcher.RowTo` are the rows of a member that end in a node.
* `Matcher.Finds` is what a member brings, and `Matcher.Infallible.yields_finds` says that a
  query collects just that.
* `Query.answers` is the same for the answer to a lenient query.
-/

namespace Selectors

namespace Matcher

/-- A row for a member that ends in the node `n`. -/
structure RowTo (t : Tree) (m : Matcher) (id : ComplexId) (n : NodeId) (e : Nat → NodeId) : Prop
    extends Row t m m.shadow (m.arena.complex id) e where
  last : e (m.arena.complex id).combinators.length = n

/-- Whether following a member leads to a node from an element in the tree of the reference. -/
def FollowsTo (m : Matcher) (reference : NodeId) (id : ComplexId) (n : NodeId) : Prop :=
  ∃ a ∈ m.tree.elementsBelow (m.tree.rootOf reference),
    m.Passes m.shadow (m.arena.complex id).first a ∧
      LeadsRight m (m.arena.complex id).joined a n

/-- What a member brings to a query: elements below the reference that it is followed to, or that a
row of it ends in. -/
structure Finds (t : Tree) (m : Matcher) (reference : NodeId) (id : ComplexId) (n : NodeId) :
    Prop where
  isReference : m.isReference reference = true
  isElement : t.view.isElement n = true
  below : t.Below n reference
  followed : m.isFollowed id = true → m.FollowsTo reference id n
  tested : m.isFollowed id = false → ∃ e, RowTo t m id n e

variable {t : Tree} {m : Matcher} {F : Routes} {l : ListId} {id : ComplexId}
  {n reference : NodeId}

/-! ### Tested members -/

/-- Whether a member matches is whether a row leads to the node. -/
theorem Infallible.tests_matchesComplex (H : Infallible t m F)
    (hid : id ∈ (m.arena.list l).complexes) (n : NodeId) :
    Tests t m (m.callFrame F l) m.arena.listCount (m.matchesComplex id n)
      (∃ e, RowTo t m id n e) := by
  have hl := Arena.lt_of_mem_list hid
  have htests := tests_complex (f := m.callFrame F l) H hl (Nat.le_of_lt hl) hid none
    (fits_callFrame t m F l n)
  refine htests.congr (exists_congr fun e => ?_)
  constructor
  · intro hrow
    exact { hrow.1 with last := hrow.2.1 }
  · intro hrow
    exact ⟨hrow.toRow, hrow.last, rfl⟩

/-- **Matching a node** tests whether some member has a row to it. -/
theorem Infallible.tests_matchesSome (H : Infallible t m F) {members : List ComplexId}
    (hmembers : ∀ id ∈ members, id ∈ (m.arena.list l).complexes) (n : NodeId) :
    Tests t m (m.callFrame F l) m.arena.listCount (m.matchesSome members n)
      (∃ id ∈ members, ∃ e, RowTo t m id n e) :=
  Tests.anyM fun id hid => H.tests_matchesComplex (hmembers id hid) n

/-- Collecting keeps the nodes that match. -/
theorem Infallible.yields_collect (H : Infallible t m F) {members : List ComplexId}
    (hmembers : ∀ id ∈ members, id ∈ (m.arena.list l).complexes) (ns : List NodeId) :
    ∃ found, Yields t m (m.callFrame F l) m.arena.listCount (m.collect members false ns) found ∧
      ∀ n, n ∈ found ↔ n ∈ ns ∧ ∃ id ∈ members, ∃ e, RowTo t m id n e := by
  induction ns with
  | nil => exact ⟨[], Yields.pure [], by simp⟩
  | cons x ns ih =>
      obtain ⟨found, hfound, hmem⟩ := ih
      obtain ⟨b, hb, hrow⟩ := H.tests_matchesSome hmembers x
      cases b with
      | false =>
          refine ⟨found, hb.bind hfound, fun n => ?_⟩
          rw [hmem, List.mem_cons]
          constructor
          · intro hn
            exact ⟨Or.inr hn.1, hn.2⟩
          · intro hn
            obtain ⟨rfl | hn, hrows⟩ := hn
            · exact absurd (hrow.mpr hrows) Bool.false_ne_true
            · exact ⟨hn, hrows⟩
      | true =>
          refine ⟨x :: found, hb.bind (hfound.bind (Yields.pure _)), fun n => ?_⟩
          rw [List.mem_cons, List.mem_cons, hmem]
          constructor
          · intro hn
            rcases hn with rfl | hn
            · exact ⟨Or.inl rfl, hrow.mp rfl⟩
            · exact ⟨Or.inr hn.1, hn.2⟩
          · intro hn
            obtain ⟨rfl | hn, hrows⟩ := hn
            · exact Or.inl rfl
            · exact Or.inr ⟨hn, hrows⟩

/-- Among the candidates those are found that a row of some member leads to. -/
theorem Infallible.yields_candidateMatches (H : Infallible t m F) {members : List ComplexId}
    (hmembers : ∀ id ∈ members, id ∈ (m.arena.list l).complexes) (reference : NodeId) :
    ∃ found, Yields t m (m.callFrame F l) m.arena.listCount
        (m.candidateMatches reference members false) found ∧
      ∀ n, n ∈ found ↔ n ∈ m.tree.elementsBelow reference ∧
        ∃ id ∈ members, ∃ e, RowTo t m id n e := by
  cases members with
  | nil => exact ⟨[], Yields.pure [], by simp⟩
  | cons id members => exact H.yields_collect hmembers _

/-! ### Followed members -/

/-- **A followed member** brings what it leads to, as far as that lies below the reference. -/
theorem Infallible.yields_followedMatches (H : Infallible t m F) {members : List ComplexId}
    (hmembers : ∀ id ∈ members, id ∈ (m.arena.list l).complexes)
    (hfollowed : ∀ id ∈ members, m.isFollowed id = true) (reference : NodeId) :
    ∃ found, Yields t m (m.callFrame F l) m.arena.listCount
        (m.followedMatches reference members) found ∧
      ∀ n, n ∈ found ↔ t.Below n reference ∧ ∃ id ∈ members, m.FollowsTo reference id n := by
  have hone : ∀ id, ∃ found, id ∈ members →
      Yields t m (m.callFrame F l) m.arena.listCount
          (do return m.keepBelow (Cursor.start reference) (← m.followMember reference id))
          found ∧
        ∀ n, n ∈ found ↔ m.FollowsTo reference id n ∧ t.Below n reference := by
    intro id
    by_cases hid : id ∈ members
    · have hslot := (sound_of_followed H.described.toSound
        (Arena.lt_of_mem_list (hmembers id hid)) (hmembers id hid) (hfollowed id hid)).1
      obtain ⟨found, hfound, hmem⟩ := H.yields_followMember (hmembers id hid) hslot reference
      refine ⟨m.keepBelow (Cursor.start reference) found,
        fun _ => ⟨hfound.bind (Yields.pure _), fun n => ?_⟩⟩
      rw [mem_keepBelow H.tree H.view (Cursor.onPath_start reference), hmem n]
      rfl
    · exact ⟨[], fun hmem => absurd hmem hid⟩
  choose found hfound using hone
  refine ⟨members.flatMap found, Yields.flatMapM fun id hid => (hfound id hid).1, fun n => ?_⟩
  rw [List.mem_flatMap]
  constructor
  · intro hn
    obtain ⟨id, hid, hn⟩ := hn
    obtain ⟨hfollows, hbelow⟩ := ((hfound id hid).2 n).mp hn
    exact ⟨hbelow, id, hid, hfollows⟩
  · intro hn
    obtain ⟨hbelow, id, hid, hfollows⟩ := hn
    exact ⟨id, hid, ((hfound id hid).2 n).mpr ⟨hfollows, hbelow⟩⟩

/-! ### All members -/

/-- What some member finds is what a tested or a followed one does. -/
theorem exists_finds_iff (href : m.isReference reference = true)
    (helement : t.view.isElement n = true) (hbelow : t.Below n reference) :
    (∃ id ∈ (m.arena.list m.root).complexes, Finds t m reference id n) ↔
      (∃ id ∈ m.testedMembers, ∃ e, RowTo t m id n e) ∨
        ∃ id ∈ m.followedMembers, m.FollowsTo reference id n := by
  unfold testedMembers followedMembers
  constructor
  · intro hfinds
    obtain ⟨id, hid, hfinds⟩ := hfinds
    cases hfollowed : m.isFollowed id with
    | true =>
        exact Or.inr ⟨id, List.mem_filter.mpr ⟨hid, hfollowed⟩, hfinds.followed hfollowed⟩
    | false =>
        have htested : id ∈ (m.arena.list m.root).complexes.filter fun id => !m.isFollowed id :=
          List.mem_filter.mpr ⟨hid, by rw [hfollowed]; rfl⟩
        exact Or.inl ⟨id, htested, hfinds.tested hfollowed⟩
  · intro hfinds
    rcases hfinds with ⟨id, hid, hrow⟩ | ⟨id, hid, hfollows⟩
    · obtain ⟨hid, htested⟩ := List.mem_filter.mp hid
      have hnot : m.isFollowed id = false := by
        simpa using htested
      refine ⟨id, hid, href, helement, hbelow, fun hfollowed => ?_, fun _ => hrow⟩
      rw [hnot] at hfollowed
      cases hfollowed
    · obtain ⟨hid, hfollowed⟩ := List.mem_filter.mp hid
      refine ⟨id, hid, href, helement, hbelow, fun _ => hfollows, fun hnot => ?_⟩
      rw [hfollowed] at hnot
      cases hnot

/-- What is collected from the members of both kinds are the elements that some member finds. -/
private theorem Infallible.yields_collected (H : Infallible t m F)
    (href : m.isReference reference = true) :
    ∃ found, Yields t m (m.callFrame F m.root) m.arena.listCount
        (m.matchesBelow reference false) found ∧
      ∀ n, t.view.isElement n = true → t.Below n reference →
        (n ∈ found ↔ ∃ id ∈ (m.arena.list m.root).complexes, Finds t m reference id n) := by
  have htested : ∀ id ∈ m.testedMembers, id ∈ (m.arena.list m.root).complexes :=
    fun id hid => (List.mem_filter.mp hid).1
  have hmembers : ∀ id ∈ m.followedMembers, id ∈ (m.arena.list m.root).complexes :=
    fun id hid => (List.mem_filter.mp hid).1
  have hfollowed : ∀ id ∈ m.followedMembers, m.isFollowed id = true :=
    fun id hid => (List.mem_filter.mp hid).2
  obtain ⟨found, hfound, hmem⟩ := H.yields_candidateMatches htested reference
  obtain ⟨more, hmore, hmem'⟩ := H.yields_followedMatches hmembers hfollowed reference
  have hcandidate : ∀ n, t.view.isElement n = true → t.Below n reference →
      (n ∈ found ↔ ∃ id ∈ m.testedMembers, ∃ e, RowTo t m id n e) := by
    intro n helement hbelow
    rw [hmem, H.view]
    exact and_iff_right ((mem_elementsBelow H.tree).mpr ⟨helement, hbelow⟩)
  by_cases hnone : m.followedMembers = []
  · refine ⟨found, ?_, fun n helement hbelow => ?_⟩
    · rw [matchesBelow_of_tested href hnone, map_eq_pure_bind]
      exact hfound.bind (Yields.pure _)
    · rw [hcandidate n helement hbelow, exists_finds_iff href helement hbelow, hnone]
      simp
  · refine ⟨m.tree.sortNodes (found ++ more), ?_, fun n helement hbelow => ?_⟩
    · rw [matchesBelow_of_followed href hnone]
      exact hfound.bind (hmore.bind (Yields.pure _))
    · rw [TreeView.mem_sortNodes, List.mem_append, hcandidate n helement hbelow, hmem' n,
        exists_finds_iff href helement hbelow]
      exact or_congr_right (and_iff_right hbelow)

/-- **A query yields what its members find**, in document order. -/
theorem Infallible.yields_finds (H : Infallible t m F) (reference : NodeId) :
    ∃ found, Yields t m (m.callFrame F m.root) m.arena.listCount
        (m.matchesBelow reference false) found ∧ found.Pairwise t.Precedes ∧
      ∀ n, n ∈ found ↔ ∃ id ∈ (m.arena.list m.root).complexes, Finds t m reference id n := by
  cases href : m.isReference reference with
  | false =>
      refine ⟨[], ?_, List.Pairwise.nil, fun n => ?_⟩
      · rw [matchesBelow_of_not_reference href]
        exact Yields.pure []
      · constructor
        · intro hn
          exact absurd hn List.not_mem_nil
        · intro hfinds
          obtain ⟨id, -, hfinds⟩ := hfinds
          rw [hfinds.isReference] at href
          cases href
  | true =>
      obtain ⟨found, hfound, hmem⟩ := H.yields_collected href
      have hslot : ∀ id ∈ m.followedMembers,
          Combinator.slot ∉ (m.arena.complex id).combinators := by
        intro id hid
        obtain ⟨hid, hfollowed⟩ := List.mem_filter.mp hid
        exact (sound_of_followed H.described.toSound (Arena.lt_of_mem_list hid) hid hfollowed).1
      obtain ⟨memory, hrun, -⟩ := hfound {} (recalls_new t m _ _)
      have hreturns := returns_matchesBelow H.tree H.view reference hslot
      obtain ⟨horder, hwithin⟩ := hreturns.of_run hrun
      refine ⟨found, hfound, horder, fun n => ?_⟩
      constructor
      · intro hn
        obtain ⟨helement, hbelow⟩ := hwithin n hn
        exact (hmem n helement hbelow).mp hn
      · intro hfinds
        obtain ⟨id, hid, hfinds'⟩ := hfinds
        exact (hmem n hfinds'.isElement hfinds'.below).mpr ⟨id, hid, hfinds'⟩

end Matcher

namespace Query

variable {t : Tree} {s : CompiledSelector} {settings : Settings}

/-- A lenient query of a compiled selector does not fail. -/
theorem infallible {reference : NodeId} (ht : t.Proper) {F : Routes} (hF : F.Describes s.arena)
    (hlenient : settings.strict = false) (hplain : ¬s.arena.NamesPrefix) :
    (of t.view s reference settings).matcher.Infallible t F where
  tree := ht.wellFormed
  view := rfl
  described := hF
  lenient := hlenient
  plain := hplain

/-- **The answer to a lenient query**: what the members find, in document order. -/
theorem answers (ht : t.Proper) {F : Routes} (hF : F.Describes s.arena)
    (hlenient : settings.strict = false) (hplain : ¬s.arena.NamesPrefix) (reference : NodeId) :
    ∃ ns, (runFrom ((of t.view s reference settings).find .all) {}).1 = .ok ns ∧
      ns.Pairwise t.Precedes ∧
      ∀ n, n ∈ ns ↔ ∃ id ∈ (s.arena.list s.root).complexes,
        (of t.view s reference settings).matcher.Finds t reference id n := by
  let m := (of t.view s reference settings).matcher
  have H : m.Infallible t F := infallible ht hF hlenient hplain
  obtain ⟨ns, hns, horder, hmem⟩ := H.yields_finds reference
  obtain ⟨memory, hrun, -⟩ := hns {} (Matcher.recalls_new t m _ _)
  exact ⟨ns, congrArg Prod.fst hrun, horder, hmem⟩

end Query

end Selectors

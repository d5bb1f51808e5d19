import Selectors.Proofs.Query.Members

/-!
# Queries and single matches

Asking for all matches below a reference and asking of each node whether it matches are two ways to
one answer, where the selector does not ask for `:scope`.  Members that are tested read rows to the
left from each candidate.  Members that are followed read them to the right, and miss those that
begin at the root of the tree.  A document, a fragment and a shadow root have no id, so that in
their trees nothing is missed; in a tree whose root is an element a query may find less.

* `Matcher.Infallible.yields_matchesBelow` and `Matcher.Infallible.tests_matchesSome` are the two
  answers in terms of rows.
* `Matcher.OnlyFromRoot` is the exception, and `Engine.queryAll_iff_matchesNode` the comparison.
-/

namespace Selectors

namespace Matcher

/-- A selector matches a node from the root of the tree only: each of its rows that end in the node
begins at the root, and belongs to a member that a query follows. -/
def OnlyFromRoot (t : Tree) (m : Matcher) (n : NodeId) : Prop :=
  ∀ id ∈ (m.arena.list m.root).complexes, ∀ e, RowTo t m id n e →
    m.isFollowed id = true ∧ e 0 = t.rootOf n

variable {t : Tree} {m : Matcher} {F : Routes} {l : ListId} {id : ComplexId}
  {n reference : NodeId}

/-! ### Followed members -/

/-- The first node of a followed member's row is an element, in the tree of the last one. -/
theorem Infallible.first_of_followed (H : Infallible t m F)
    (hid : id ∈ (m.arena.list l).complexes) (hfollowed : m.isFollowed id = true)
    {e : Nat → NodeId} (hrow : RowTo t m id n e) :
    t.view.isElement (e 0) = true ∧ t.rootOf n = t.rootOf (e 0) := by
  have hl := Arena.lt_of_mem_list hid
  obtain ⟨hslot, hfirst⟩ := sound_of_followed H.described.toSound hl hid hfollowed
  have hstored := (H.described.complexes (H.described.lists hl id hid)).compounds _
    List.mem_cons_self
  constructor
  · exact isElement_of_passes_id H.view (H.described.compounds hstored) hfirst
      (hrow.passes 0 _ rfl)
  · have hroot := hrow.toRow.rootOf_last H.tree hslot
    rwa [hrow.last] at hroot

/-- **Following finds rows**: those that end in a node of the tree and do not begin at its root. -/
theorem Infallible.followsTo_iff (H : Infallible t m F) (hscope : ¬m.arena.AsksScope)
    (hid : id ∈ (m.arena.list l).complexes) (hfollowed : m.isFollowed id = true)
    (hbelow : t.Below n reference) :
    m.FollowsTo reference id n ↔ ∃ e, RowTo t m id n e ∧ e 0 ≠ t.rootOf n := by
  have hl := Arena.lt_of_mem_list hid
  obtain ⟨hslot, -⟩ := sound_of_followed H.described.toSound hl hid hfollowed
  have hpasses : ∀ d ∈ (m.arena.complex id).compounds, ∀ x, m.Passes m.shadow d x →
      t.view.isElement x = true ∨ t.kind x = .shadowRoot := by
    intro d hd x hx
    rcases H.isElement_or_host_of_passes hscope hid hd hx with helement | hhost
    · exact Or.inl helement
    · exact Or.inr hhost.1
  have hroot : m.tree.rootOf reference = t.rootOf n := by
    rw [H.view, H.tree.rootOf_of_below hbelow]
    rfl
  unfold FollowsTo
  rw [hroot, H.view]
  constructor
  · intro hn
    obtain ⟨a, ha, hleads⟩ := hn
    obtain ⟨helement, haroot⟩ := (mem_elementsBelow H.tree).mp ha
    obtain ⟨e, hrow, rfl, hlast⟩ :=
      (row_iff_leadsRight H.tree H.view hslot hpasses helement).mpr hleads
    refine ⟨e, { hrow with last := hlast }, fun heq => ?_⟩
    rw [heq] at haroot
    exact H.tree.not_below_self _ haroot
  · intro hn
    obtain ⟨e, hrow, hne⟩ := hn
    obtain ⟨helement, htree⟩ := H.first_of_followed hid hfollowed hrow
    have hleads := (row_iff_leadsRight H.tree H.view hslot hpasses helement).mp
      ⟨e, hrow.toRow, rfl, hrow.last⟩
    refine ⟨e 0, (mem_elementsBelow H.tree).mpr ⟨helement, ?_⟩, hleads⟩
    rw [htree] at hne ⊢
    exact (H.tree.eq_rootOf_or_below (e 0)).resolve_left hne

/-! ### All members -/

/-- A row that a query finds: where the member is followed it does not begin at the root. -/
def Found (t : Tree) (m : Matcher) (n : NodeId) : Prop :=
  ∃ id ∈ (m.arena.list m.root).complexes, ∃ e, RowTo t m id n e ∧
    (m.isFollowed id = true → e 0 ≠ t.rootOf n)

/-- What some member finds below a reference are the elements there with a row to find. -/
theorem Infallible.finds_iff_found (H : Infallible t m F) (hscope : ¬m.arena.AsksScope)
    (href : m.isReference reference = true) :
    (∃ id ∈ (m.arena.list m.root).complexes, Finds t m reference id n) ↔
      t.view.isElement n = true ∧ t.Below n reference ∧ Found t m n := by
  constructor
  · intro hfinds
    obtain ⟨id, hid, hfinds⟩ := hfinds
    refine ⟨hfinds.isElement, hfinds.below, id, hid, ?_⟩
    cases hfollowed : m.isFollowed id with
    | true =>
        obtain ⟨e, hrow, hne⟩ := (H.followsTo_iff hscope hid hfollowed hfinds.below).mp
          (hfinds.followed hfollowed)
        exact ⟨e, hrow, fun _ => hne⟩
    | false =>
        obtain ⟨e, hrow⟩ := hfinds.tested hfollowed
        exact ⟨e, hrow, fun hyes => absurd hyes Bool.false_ne_true⟩
  · intro hfound
    obtain ⟨helement, hbelow, id, hid, e, hrow, hne⟩ := hfound
    refine ⟨id, hid, href, helement, hbelow, fun hfollowed => ?_, fun _ => ⟨e, hrow⟩⟩
    exact (H.followsTo_iff hscope hid hfollowed hbelow).mpr ⟨e, hrow, hne hfollowed⟩

/-- **A query** finds the elements below the reference to which it has a row to find. -/
theorem Infallible.yields_matchesBelow (H : Infallible t m F) (hscope : ¬m.arena.AsksScope)
    (href : m.isReference reference = true) :
    ∃ found, Yields t m (m.callFrame F m.root) m.arena.listCount
        (m.matchesBelow reference false) found ∧
      ∀ n, t.view.isElement n = true → t.Below n reference → (n ∈ found ↔ Found t m n) := by
  obtain ⟨found, hfound, -, hmem⟩ := H.yields_finds reference
  refine ⟨found, hfound, fun n helement hbelow => ?_⟩
  rw [hmem n, H.finds_iff_found hscope href, and_iff_right helement, and_iff_right hbelow]

/-- Documents, fragments, shadow roots and elements have results below them. -/
theorem isReference_of_kind (hm : m.tree = t.view)
    (hkind : t.kind reference ∈ [NodeKind.document, .fragment, .shadowRoot, .element]) :
    m.isReference reference = true := by
  have hview : m.tree.kind reference = t.kind reference := by
    rw [hm]
    rfl
  rw [isReference, hview]
  simp only [List.mem_cons, List.not_mem_nil, or_false] at hkind
  rcases hkind with hkind | hkind | hkind | hkind <;> rw [hkind]

/-- Where nothing asks for `:scope`, the rows to a node are the same for any scope. -/
theorem Infallible.rowTo_tuned (H : Infallible t m F) (hscope : ¬m.arena.AsksScope)
    (hid : id ∈ (m.arena.list l).complexes) (scope : Option NodeId) {e : Nat → NodeId} :
    RowTo t (m.tuned scope false m.remembers) id n e ↔ RowTo t m id n e := by
  have hrow : Row t (m.tuned scope false m.remembers) m.shadow (m.arena.complex id) e ↔
      Row t m m.shadow (m.arena.complex id) e := H.row_tuned hscope hid
  constructor
  · intro hto
    exact { hrow.mp hto.toRow with last := hto.last }
  · intro hto
    exact { hrow.mpr hto.toRow with last := hto.last }

/-- What is found is what matches, but for what matches only from the root. -/
theorem found_iff_not_onlyFromRoot :
    Found t m n ↔ (∃ id ∈ (m.arena.list m.root).complexes, ∃ e, RowTo t m id n e) ∧
      ¬OnlyFromRoot t m n := by
  constructor
  · intro hfound
    obtain ⟨id, hid, e, hrow, hroot⟩ := hfound
    refine ⟨⟨id, hid, e, hrow⟩, fun honly => ?_⟩
    obtain ⟨hfollowed, hfirst⟩ := honly id hid e hrow
    exact hroot hfollowed hfirst
  · intro hmatches
    obtain ⟨-, honly⟩ := hmatches
    unfold OnlyFromRoot at honly
    push Not at honly
    obtain ⟨id, hid, e, hrow, hroot⟩ := honly
    exact ⟨id, hid, e, hrow, hroot⟩

/-- Where the root of the tree is no element, nothing matches from the root only. -/
theorem Infallible.not_onlyFromRoot (H : Infallible t m F)
    (hroot : t.view.isElement (t.rootOf n) = false)
    (hmatches : ∃ id ∈ (m.arena.list m.root).complexes, ∃ e, RowTo t m id n e) :
    ¬OnlyFromRoot t m n := by
  intro honly
  obtain ⟨id, hid, e, hrow⟩ := hmatches
  obtain ⟨hfollowed, hfirst⟩ := honly id hid e hrow
  have helement := (H.first_of_followed hid hfollowed hrow).1
  rw [hfirst, hroot] at helement
  cases helement

end Matcher

namespace Query

variable {t : Tree} {s : CompiledSelector} {settings : Settings} {reference n : NodeId}

/-- Two queries in one tree differ in the node that `:scope` stands for. -/
theorem matcher_of_sameTree (hlenient : settings.strict = false)
    (hroot : t.rootOf n = t.rootOf reference) :
    (of t.view s n settings).matcher =
      (of t.view s reference settings).matcher.tuned (some n) false true := by
  have hshadow : t.view.shadowScope n = t.view.shadowScope reference :=
    Frame.shadowScope_congr hroot
  simp only [of, hshadow, hlenient]

/-- What a lenient query of an element says. -/
theorem find_itself (hn : t.view.isElement n = true) {b : Bool} {memory : MatchMemory}
    (hrun : runFrom ((of t.view s n settings).matcher.matchesNode n) {} = (.ok b, memory)) :
    (runFrom ((of t.view s n settings).find .itself) {}).1 = .ok (if b then [n] else []) :=
  find_itself_of_run (by rwa [Matcher.matchesItself_of_element hn])

end Query

namespace Engine

/-- What a call says of an element is what matching it gives. -/
theorem Reached.matchesNode_result {e : Engine} (he : e.Reached) {t : Tree} {settings : Settings}
    {text : String} {s : CompiledSelector} (hs : Selectors.compile text = .ok s) {n : NodeId}
    (hn : t.view.isElement n = true) {b : Bool} {memory : MatchMemory}
    (hrun : runFrom ((Query.of t.view s n settings).matcher.matchesNode n) {} = (.ok b, memory)) :
    (e.matchesNode t.view settings text n).1.result = .ok b :=
  he.result_of_run hs (by rwa [Matcher.matchesItself_of_element hn])

/-- **A query and single matches agree but for what matches only from the root of the tree**, and in
a tree whose root is no element they agree. -/
theorem queryAll_iff_matchesNode {t : Tree} (ht : t.Proper) {e e' : Engine} (he : e.Reached)
    (he' : e'.Reached) {settings : Settings} (hlenient : settings.strict = false) {text : String}
    {s : CompiledSelector} (hs : Selectors.compile text = .ok s) (hscope : ¬s.arena.AsksScope)
    (hplain : ¬s.arena.NamesPrefix) {reference n : NodeId}
    (hkind : t.kind reference ∈ [NodeKind.document, .fragment, .shadowRoot, .element])
    (hn : t.view.isElement n = true) (hbelow : t.Below n reference) :
    ∃ ns b, (e.queryAll t.view settings text reference).1.result = .ok ns ∧
      (e'.matchesNode t.view settings text n).1.result = .ok b ∧
      (n ∈ ns ↔ b = true ∧
        ¬Matcher.OnlyFromRoot t (Query.of t.view s n settings).matcher n) ∧
      (t.view.isElement (t.rootOf n) = false → (n ∈ ns ↔ b = true)) := by
  obtain ⟨F, hF, -⟩ := compile_describes hs
  let m := (Query.of t.view s reference settings).matcher
  let m' := (Query.of t.view s n settings).matcher
  have H : m.Infallible t F := Query.infallible ht hF hlenient hplain
  have H' : m'.Infallible t F := Query.infallible ht hF hlenient hplain
  have hroot : t.rootOf n = t.rootOf reference := ht.wellFormed.rootOf_of_below hbelow
  have hrows : ∀ id ∈ (s.arena.list s.root).complexes, ∀ e,
      m'.RowTo t id n e ↔ m.RowTo t id n e := by
    intro id hid e
    have hm' : m' = m.tuned (some n) false true := Query.matcher_of_sameTree hlenient hroot
    rw [hm']
    exact H.rowTo_tuned hscope hid (some n)
  have href : m.isReference reference = true := Matcher.isReference_of_kind rfl hkind
  obtain ⟨ns, hns, hfound⟩ := H.yields_matchesBelow hscope href
  obtain ⟨memory, hall, -⟩ := hns {} (Matcher.recalls_new t m _ _)
  obtain ⟨b, hb, hmatches⟩ := H'.tests_matchesSome (l := s.root) (fun id hid => hid) n
  obtain ⟨memory', hone, -⟩ := hb {} (Matcher.recalls_new t m' _ _)
  have hfound' : n ∈ ns ↔ m'.Found t n := by
    rw [hfound n hn hbelow]
    refine exists_congr fun id => and_congr_right fun hid => exists_congr fun e => ?_
    exact and_congr_left' (hrows id hid e).symm
  have hagree : n ∈ ns ↔ b = true ∧ ¬m'.OnlyFromRoot t n := by
    rw [hfound', Matcher.found_iff_not_onlyFromRoot, hmatches]
    rfl
  refine ⟨ns, b, ?_, ?_, hagree, fun htop => ?_⟩
  · change (e.run t.view settings text reference .all).1.result = .ok ns
    rw [he.run_result_of_ok t.view settings hs]
    exact congrArg Prod.fst hall
  · change ((e'.run t.view settings text n .itself).1.result).map _ = _
    rw [he'.run_result_of_ok t.view settings hs, Query.find_itself hn hone]
    cases b with
    | true => rfl
    | false => rfl
  · rw [hagree]
    refine and_iff_left_of_imp fun hb => ?_
    exact H'.not_onlyFromRoot htop (hmatches.mp hb)

/-- In the detached box the paragraph matches by a row from the root only, so the query misses
it. -/
theorem queryAll_iff_matchesNode_detachedBox :
    (queryAll {} Tree.detachedBox.view {} "#a p" 1).1.result = .ok [] ∧
      (matchesNode {} Tree.detachedBox.view {} "#a p" 2).1.result = .ok true ∧
      ∃ s, Selectors.compile "#a p" = .ok s ∧
        Matcher.OnlyFromRoot Tree.detachedBox
          (Query.of Tree.detachedBox.view s 2 {}).matcher 2 := by
  have hnone : (queryAll {} Tree.detachedBox.view {} "#a p" 1).1.result = .ok [] := by
    decide +kernel
  have hone : (matchesNode {} Tree.detachedBox.view {} "#a p" 2).1.result = .ok true := by
    decide +kernel
  let s := (Selectors.compile "#a p").toOption.get (by decide +kernel)
  have hs : Selectors.compile "#a p" = .ok s := by
    decide +kernel
  have hbelow : Tree.detachedBox.Below 2 1 := by
    apply Relation.TransGen.single
    decide +kernel
  have hlenient : ({} : Settings).strict = false := rfl
  obtain ⟨ns, b, hns, hb, hagree, -⟩ := queryAll_iff_matchesNode Tree.detachedBox_proper .new .new
    hlenient hs (by decide +kernel) (by decide +kernel) (by decide +kernel) (by decide +kernel)
    hbelow
  rw [hnone] at hns
  rw [hone] at hb
  cases hns
  cases hb
  refine ⟨hnone, hone, s, hs, ?_⟩
  by_contra honly
  exact List.not_mem_nil (hagree.mpr ⟨rfl, honly⟩)

end Engine

end Selectors

import Selectors.Proofs.Matching.Rows

/-!
# What `:has()` means

A relative selector holds of an anchor if there is a row that starts beside or below the anchor and
ends in an element.  The search goes the other way: it lists the elements that may come last and
reads a row from each, and only at its far end asks for the anchor.  Below the anchor nothing is
missed.  Beside it the search looks at elements and inside of elements alone, so that what hangs
from a sibling of another kind is out of its reach.

* `Tree.InReach` are the nodes that the search comes to.
* `Matcher.mem_candidates` says that a row from the anchor ends among the candidates if it ends in
  an element that is in reach.
* `Matcher.has_iff_row` is the meaning of `:has()`.
-/

namespace Selectors

/-- Whether a search for what is related to the anchor `a` comes to the node `x`: everything that
lies below, and of what lies beside it the elements that follow and what they hold. -/
def Tree.InReach (t : Tree) (q : Combinator) (a x : NodeId) : Prop :=
  q = .nextSibling ∨ q = .subsequentSibling →
    ∃ between e, t.SiblingBefore a between e ∧ t.view.isElement e = true ∧ (x = e ∨ t.Below x e)

namespace ComplexSelector

/-- The combinator between the anchor and the first compound. -/
def lead (c : ComplexSelector) : Combinator :=
  c.leading.getD .descendant

end ComplexSelector

namespace Matcher

variable {t : Tree} {m : Matcher} {f : Frame} {k : Nat} {σ : ShadowScope} {c : ComplexSelector}
  {e : Nat → NodeId} {a x : NodeId} {l : ListId}

/-- A row that starts at the anchor and ends in an element. -/
structure RowFrom (t : Tree) (m : Matcher) (σ : ShadowScope) (a : NodeId) (c : ComplexSelector)
    (e : Nat → NodeId) : Prop extends Row t m σ c e where
  anchored : t.Joins c.lead a (e 0)
  subject : t.view.isElement (e c.combinators.length) = true

/-! ### Along a row -/

/-- A row that starts below a node ends below it. -/
theorem Row.last_below (h : t.WellFormed) (hslot : Combinator.slot ∉ c.combinators)
    (hrow : Row t m σ c e) (hfirst : t.Below (e 0) a) : t.Below (e c.combinators.length) a := by
  refine hrow.last (P := fun x => t.Below x a) hfirst ?_
  intro q hq x y hjoins hx
  exact h.below_of_joins (fun heq => hslot (heq ▸ hq)) hjoins hx

/-- A row that starts beside a node and leads inside of nothing ends beside it. -/
theorem Row.last_beside (h : t.WellFormed) (hslot : Combinator.slot ∉ c.combinators)
    (hinside : c.combinators.any leadsInside = false) (hrow : Row t m σ c e)
    (hfirst : ∃ between, t.SiblingBefore a between (e 0)) :
    ∃ between, t.SiblingBefore a between (e c.combinators.length) := by
  refine hrow.last (P := fun x => ∃ between, t.SiblingBefore a between x) hfirst ?_
  intro q hq x y hjoins hx
  obtain ⟨near, hx⟩ := hx
  have hq' := List.any_eq_false.mp hinside q hq
  cases q with
  | descendant => exact absurd rfl hq'
  | child => exact absurd rfl hq'
  | nextSibling =>
      obtain ⟨-, far, hy, -⟩ := hjoins
      exact h.siblingBefore_trans hx hy
  | subsequentSibling =>
      obtain ⟨-, far, hy⟩ := hjoins
      exact h.siblingBefore_trans hx hy
  | slot => exact absurd hq hslot

/-! ### Candidates -/

/-- Where the leading combinator leads down the candidates are the elements below the anchor. -/
theorem mem_candidates_below (h : t.WellFormed) (hm : m.tree = t.view)
    (hlead : c.lead = .descendant ∨ c.lead = .child) :
    x ∈ m.candidates c a ↔ t.view.isElement x = true ∧ t.Below x a := by
  have hcandidates : m.candidates c a = t.view.elementsBelow a := by
    unfold ComplexSelector.lead at hlead
    unfold candidates
    rw [hm]
    rcases hlead with hlead | hlead
    · rw [hlead]
    · rw [hlead]
  rw [hcandidates]
  exact mem_elementsBelow h

/-- Where it leads aside the candidates are the elements beside the anchor, and below these if
something leads inside. -/
theorem mem_candidates_beside (h : t.WellFormed) (hm : m.tree = t.view)
    (hlead : c.lead = .nextSibling ∨ c.lead = .subsequentSibling) :
    x ∈ m.candidates c a ↔ t.view.isElement x = true ∧
      ∃ between s, t.SiblingBefore a between s ∧ t.view.isElement s = true ∧
        (x = s ∨ (c.combinators.any leadsInside = true ∧ t.Below x s)) := by
  have hcandidates : m.candidates c a =
      ((t.followingSiblings a).filter t.view.isElement).flatMap fun s =>
        s :: if c.combinators.any leadsInside then t.view.elementsBelow s else [] := by
    unfold ComplexSelector.lead at hlead
    unfold candidates
    rw [hm]
    rcases hlead with hlead | hlead
    · rw [hlead]
      rfl
    · rw [hlead]
      rfl
  rw [hcandidates, List.mem_flatMap]
  constructor
  · intro hx
    obtain ⟨s, hs, hx⟩ := hx
    obtain ⟨hs, helement⟩ := List.mem_filter.mp hs
    obtain ⟨between, hbefore⟩ := h.mem_followingSiblings.mp hs
    rcases List.mem_cons.mp hx with rfl | hx
    · exact ⟨helement, between, x, hbefore, helement, Or.inl rfl⟩
    · split at hx
      · rename_i hinside
        obtain ⟨hxelement, hbelow⟩ := (mem_elementsBelow h).mp hx
        exact ⟨hxelement, between, s, hbefore, helement, Or.inr ⟨hinside, hbelow⟩⟩
      · exact absurd hx List.not_mem_nil
  · intro hx
    obtain ⟨hxelement, between, s, hbefore, helement, hxs⟩ := hx
    have hs := h.mem_followingSiblings.mpr ⟨between, hbefore⟩
    refine ⟨s, List.mem_filter.mpr ⟨hs, helement⟩, ?_⟩
    rcases hxs with rfl | ⟨hinside, hbelow⟩
    · exact List.mem_cons_self
    · rw [if_pos hinside]
      exact List.mem_cons_of_mem s ((mem_elementsBelow h).mpr ⟨hxelement, hbelow⟩)

/-- **Candidates miss no subject**: a row that starts beside or below the anchor ends in a candidate
exactly if it ends in an element that is in reach.  Where only siblings follow, the last node itself
is the element beside the anchor. -/
theorem mem_candidates (h : t.WellFormed) (hm : m.tree = t.view) (hlead : c.lead ≠ .slot)
    (hslot : Combinator.slot ∉ c.combinators) (hrow : Row t m σ c e)
    (hanchor : t.Joins c.lead a (e 0)) :
    e c.combinators.length ∈ m.candidates c a ↔
      t.view.isElement (e c.combinators.length) = true ∧
        t.InReach c.lead a (e c.combinators.length) := by
  have hbelow : c.lead = .descendant ∨ c.lead = .child →
      (e c.combinators.length ∈ m.candidates c a ↔
        t.view.isElement (e c.combinators.length) = true ∧
          t.InReach c.lead a (e c.combinators.length)) := by
    intro hdown
    rw [mem_candidates_below h hm hdown]
    refine and_congr_right fun _ => ?_
    constructor
    · intro _ hbeside
      rcases hdown with hdown | hdown <;> rw [hdown] at hbeside <;> simp at hbeside
    · intro _
      refine hrow.last_below h hslot ?_
      rcases hdown with hdown | hdown <;> rw [hdown] at hanchor
      · exact hanchor
      · exact Relation.TransGen.single hanchor
  have hbeside : c.lead = .nextSibling ∨ c.lead = .subsequentSibling →
      (∃ between, t.SiblingBefore a between (e 0)) →
        (e c.combinators.length ∈ m.candidates c a ↔
          t.view.isElement (e c.combinators.length) = true ∧
            t.InReach c.lead a (e c.combinators.length)) := by
    intro hside hfirst
    rw [mem_candidates_beside h hm hside]
    refine and_congr_right fun helement => ?_
    constructor
    · intro hx _
      obtain ⟨between, s, hbefore, hs, hxs⟩ := hx
      refine ⟨between, s, hbefore, hs, ?_⟩
      rcases hxs with hxs | ⟨-, hxs⟩
      · exact Or.inl hxs
      · exact Or.inr hxs
    · intro hreach
      cases hinside : c.combinators.any leadsInside with
      | false =>
          obtain ⟨between, hlast⟩ := hrow.last_beside h hslot hinside hfirst
          exact ⟨between, _, hlast, helement, Or.inl rfl⟩
      | true =>
          obtain ⟨between, s, hbefore, hs, hxs⟩ := hreach hside
          refine ⟨between, s, hbefore, hs, ?_⟩
          rcases hxs with hxs | hxs
          · exact Or.inl hxs
          · exact Or.inr ⟨rfl, hxs⟩
  cases hq : c.lead with
  | descendant => exact hq ▸ hbelow (Or.inl hq)
  | child => exact hq ▸ hbelow (Or.inr hq)
  | nextSibling =>
      rw [hq] at hanchor
      obtain ⟨-, between, hfirst, -⟩ := hanchor
      exact hq ▸ hbeside (Or.inl hq) ⟨between, hfirst⟩
  | subsequentSibling =>
      rw [hq] at hanchor
      obtain ⟨-, between, hfirst⟩ := hanchor
      exact hq ▸ hbeside (Or.inr hq) ⟨between, hfirst⟩
  | slot => exact absurd hq hlead

/-! ### Answering -/

/-- The search inside of a list may be made at the level of the whole selector. -/
theorem inside_has (h : t.WellFormed) (hm : m.tree = t.view) (ha : m.arena.Sound)
    (hl : l.index < m.arena.listCount) :
    m.inside.has σ l a = m.answerOnce (a, l)
      ((m.arena.list l).complexes.anyM (m.matchRelative m.inside σ a)) := by
  obtain ⟨depth, hinside, hcomplex⟩ := exists_inside h hm ha hl
  have hunfold : m.inside.has σ l a = m.answerOnce (a, l)
      ((m.arena.list l).complexes.anyM (m.matchRelative (m.nested depth) σ a)) := by
    rw [hinside]
    rfl
  rw [hunfold]
  refine congrArg (m.answerOnce (a, l)) ?_
  exact m.parallel_eq.anyM fun id hid => m.parallel_eq.anyM fun x _ => hcomplex id hid _ σ x

/-- A question that is answered once is answered as the search answers it. -/
theorem Tests.answerOnce {P : Prop} {y : Matching Bool}
    (hyields : ∃ b, Yields t m f k (m.answerOnce (a, l) y) b) (hy : Tests t m f l.index y P) :
    Tests t m f k (m.answerOnce (a, l) y) P := by
  obtain ⟨b, hb⟩ := hyields
  obtain ⟨b', hb', hP⟩ := hy
  obtain ⟨s, hrun, -⟩ := hb {} (recalls_new t m f k)
  have hbody : (runFrom (m.answerOnce (a, l) y) {}).1 = .ok b' := by
    cases hremembers : m.remembers with
    | false =>
        obtain ⟨s', hrun', -⟩ := hb' {} (recalls_new t m f l.index)
        rw [answerOnce_of_forgetful hremembers, hrun']
    | true =>
        have hasked : Recalls t m f l.index { asking := [(a, l)] } := by
          refine (recalls_new t m f l.index).of_same rfl rfl (fun w hw => hw) fun q hq => ?_
          have heq := List.mem_singleton.mp hq
          subst heq
          exact Nat.le_refl l.index
        obtain ⟨s', hrun', -⟩ := hb' _ hasked
        rw [runFrom_answerOnce hremembers rfl List.not_mem_nil, hrun']
  rw [hrun] at hbody
  cases hbody
  exact ⟨b, hb, hP⟩

/-- `:has()` tests whether some candidate ends a row that starts at the anchor. -/
theorem Infallible.tests_has (H : Infallible t m f.routes) (hl : l.index < m.arena.listCount)
    (hk : l.index < k) (hσ : f.Fits t (f.routes.list l) σ a) :
    Tests t m f k (m.inside.has σ l a)
      (∃ id ∈ (m.arena.list l).complexes, ∃ x ∈ m.candidates (m.arena.complex id) a,
        ∃ e, Row t m σ (m.arena.complex id) e ∧
          e (m.arena.complex id).combinators.length = x ∧
            m.tree.related a (e 0) (m.arena.complex id).lead = true) := by
  have hyields : ∃ b, Yields t m f k (m.inside.has σ l a) b :=
    H.yields (nested_agrees H.tree H.view H.described hl hl hk hσ).2
  rw [inside_has H.tree H.view H.described.toSound hl] at hyields ⊢
  refine Tests.answerOnce hyields (Tests.anyM fun id hid => Tests.anyM fun x hx => ?_)
  have hroot := rootOf_of_candidate H.tree H.view hx
  refine (H.tests_complex hl (Nat.le_refl _) hid _ (hσ.congr hroot)).congr ?_
  rfl

/-- **`:has()` holds of an anchor if there is a row from it that ends in an element in reach**, and
so it says from every memory that calls for the list have left. -/
theorem has_iff_row (ht : t.Proper) {text : String} {s : CompiledSelector}
    (hs : compile text = .ok s) (htree : m.tree = t.view) (harena : m.arena = s.arena)
    (hlenient : m.strict = false) (hplain : ¬m.arena.NamesPrefix) {d : CompoundId}
    (hhas : .pseudo (.logical .has l) ∈ (m.arena.compound d).simples)
    {memory : MatchMemory} (hused : m.Used l memory) (ha : t.view.isElement a = true) :
    ∃ b, (runFrom (m.inside.has m.shadow l a) memory).1 = .ok b ∧
      (b = true ↔ ∃ id ∈ (m.arena.list l).complexes,
        ∃ e, RowFrom t m m.shadow a (m.arena.complex id) e ∧
          t.InReach (m.arena.complex id).lead a
            (e (m.arena.complex id).combinators.length)) := by
  obtain ⟨F, hF, -⟩ := compile_describes hs
  rw [← harena] at hF
  obtain ⟨hl, hfree⟩ := (hF.compounds (Arena.lt_of_mem_compound hhas)).lists _ hhas l rfl
  have h := ht.wellFormed
  have H : Infallible t m (m.callFrame F l).routes :=
    { tree := h, view := htree, described := hF, lenient := hlenient, plain := hplain }
  obtain ⟨b, hb, hsearch⟩ := H.tests_has hl hl (fits_callFrame t m F l a)
  obtain ⟨s', hrun, -⟩ := hb memory (hused.recalls H hl)
  refine ⟨b, congrArg Prod.fst hrun, hsearch.trans ?_⟩
  refine exists_congr fun id => and_congr_right fun hid => ?_
  have hsound := hF.complexes (hF.lists hl id hid)
  have hlead : (m.arena.complex id).lead ≠ .slot := by
    unfold ComplexSelector.lead
    cases hleading : (m.arena.complex id).leading with
    | none => simp
    | some q =>
        intro hslot
        exact hsound.leading (hleading.trans (congrArg some hslot))
  constructor
  · intro hcandidate
    obtain ⟨x, hx, e, hrow, rfl, hrelated⟩ := hcandidate
    rw [htree, h.related_iff ha] at hrelated
    rw [mem_candidates h htree hlead (hfree id hid) hrow hrelated] at hx
    exact ⟨e, { hrow with anchored := hrelated, subject := hx.1 }, hx.2⟩
  · intro hrows
    obtain ⟨e, hfrom, hreach⟩ := hrows
    refine ⟨_, ?_, e, hfrom.toRow, rfl, ?_⟩
    · rw [mem_candidates h htree hlead (hfree id hid) hfrom.toRow hfrom.anchored]
      exact ⟨hfrom.subject, hreach⟩
    · rw [htree, h.related_iff ha]
      exact hfrom.anchored

/-- In the attached box the element above the two paragraphs has the row that `:has(> p + p)` asks
for. -/
theorem has_iff_row_attachedBox :
    ∃ s, compile ":has(> p + p)" = .ok s ∧
      let m : Matcher := { tree := Tree.attachedBox.view, arena := s.arena, root := s.root }
      (runFrom (m.inside.has none ⟨0⟩ 1) {}).1 = .ok true ∧
        ∃ id ∈ (m.arena.list ⟨0⟩).complexes, ∃ e,
          RowFrom Tree.attachedBox m none 1 (m.arena.complex id) e ∧
            Tree.attachedBox.InReach (m.arena.complex id).lead 1
              (e (m.arena.complex id).combinators.length) := by
  let s := (compile ":has(> p + p)").toOption.get (by decide +kernel)
  have hs : compile ":has(> p + p)" = .ok s := by
    decide +kernel
  let m : Matcher := { tree := Tree.attachedBox.view, arena := s.arena, root := s.root }
  have hrun : (runFrom (m.inside.has none ⟨0⟩ 1) {}).1 = .ok true := by
    decide +kernel
  have hplain : ¬m.arena.NamesPrefix := by
    decide +kernel
  have hhas : .pseudo (.logical .has ⟨0⟩) ∈ (m.arena.compound ⟨2⟩).simples := by
    decide +kernel
  obtain ⟨b, hb, hrow⟩ := has_iff_row (m := m) (a := 1) Tree.attachedBox_proper hs rfl rfl rfl
    hplain hhas Used.new (by decide +kernel)
  rw [hrun] at hb
  cases hb
  exact ⟨s, hs, hrun, hrow.mp rfl⟩

end Matcher

/-- A `div` outside of the document that holds an `a` and a text, with a `b` below the text. -/
def Tree.textAbove : Tree :=
  [Change.create (.element (Element.named (some Namespace.html) "div")),
    .create (.element (Element.named (some Namespace.html) "a")),
    .create (.text "x"),
    .create (.element (Element.named (some Namespace.html) "b")),
    .insert 3 4 none, .insert 1 2 none, .insert 1 3 none].foldl Tree.apply (Tree.empty .html)

/-- The tree with a text above an element is proper. -/
theorem Tree.textAbove_proper : Tree.textAbove.Proper := by
  have hcreated := ((((Proper.empty .html).create
    (d := .element (Element.named (some Namespace.html) "div")) rfl).create
    (d := .element (Element.named (some Namespace.html) "a")) rfl).create
    (d := .text "x") trivial).create
    (d := .element (Element.named (some Namespace.html) "b")) rfl
  have hbelow := hcreated.insert 3 4 none (by decide +kernel)
  have hfirst := hbelow.insert 1 2 none (by decide +kernel)
  exact hfirst.insert 1 3 none (by decide +kernel)

namespace Matcher

/-- **What hangs from a sibling that is no element is out of reach**: the text is what `:scope`
stands for, so that it may be the first node of a row, and the row ends in an element. -/
theorem has_misses_textAbove :
    Tree.textAbove.Proper ∧ Tree.textAbove.view.isElement 2 = true ∧
      ∃ s, compile ":has(~ :scope > b)" = .ok s ∧
        let m : Matcher :=
          { tree := Tree.textAbove.view, arena := s.arena, root := s.root, scope := some 3 }
        ¬m.arena.NamesPrefix ∧
          .pseudo (.logical .has ⟨0⟩) ∈ (m.arena.compound ⟨2⟩).simples ∧
          (runFrom (m.inside.has m.shadow ⟨0⟩ 2) {}).1 = .ok false ∧
          ∃ id ∈ (m.arena.list ⟨0⟩).complexes, ∃ e,
            RowFrom Tree.textAbove m m.shadow 2 (m.arena.complex id) e := by
  let s := (compile ":has(~ :scope > b)").toOption.get (by decide +kernel)
  have hs : compile ":has(~ :scope > b)" = .ok s := by
    decide +kernel
  let m : Matcher :=
    { tree := Tree.textAbove.view, arena := s.arena, root := s.root, scope := some 3 }
  have hrun : (runFrom (m.inside.has m.shadow ⟨0⟩ 2) {}).1 = .ok false := by
    decide +kernel
  have hjoined : (m.arena.complex ⟨0⟩).joined = [(.child, ⟨1⟩)] := by
    decide +kernel
  have hlead : (m.arena.complex ⟨0⟩).lead = .subsequentSibling := by
    decide +kernel
  have hlength : (m.arena.complex ⟨0⟩).combinators.length = 1 := by
    decide +kernel
  have htext : m.Passes m.shadow (m.arena.complex ⟨0⟩).first 3 := by
    unfold Passes
    decide +kernel
  have helement : m.Passes m.shadow ⟨1⟩ 4 := by
    unfold Passes
    decide +kernel
  have hparent : Tree.textAbove.Joins .child 3 4 := by
    change Tree.textAbove.parent 4 = some 3
    decide +kernel
  let e : Nat → NodeId := fun i => i + 3
  have hrow : Row Tree.textAbove m m.shadow (m.arena.complex ⟨0⟩) e := by
    rw [row_of_joined_cons hjoined]
    refine ⟨?_, hparent, (row_of_joined_nil rfl).mpr helement⟩
    have hscope : Tree.textAbove.scopeAlong m.shadow (m.arena.complex ⟨0⟩).combinators e =
        m.shadow := by
      rw [ComplexSelector.combinators, hjoined]
      rfl
    rw [hscope]
    exact htext
  have hbeside : Tree.textAbove.Joins .subsequentSibling 2 3 :=
    ⟨by decide +kernel, [], 1, [], [], by decide +kernel⟩
  refine ⟨Tree.textAbove_proper, by decide +kernel, s, hs, by decide +kernel, by decide +kernel,
    hrun, ⟨0⟩, by decide +kernel, e, { hrow with anchored := ?_, subject := ?_ }⟩
  · rw [hlead]
    exact hbeside
  · rw [hlength]
    decide +kernel

end Matcher

end Selectors

import Selectors.Proofs.Compiled.Steps
import Selectors.Proofs.Formula.Positions
import Selectors.Proofs.Matching.Relative

/-!
# What counters mean

A counter lists the elements beside a node with the node among them, keeps those that it counts, and
asks for the place of the node in that list.  Matching makes no list: it counts the siblings on one
side.  And the pseudo-classes for an only child count nothing, they look for another sibling on
either side.  All of them agree.

* `Tree.elementSiblings` is the list, and `Matcher.Counts` says which elements are counted.
* `Matcher.counted` is what is kept, seen from the end where counting starts.
* `Matcher.includes_iff_place` relates the number of siblings on one side to the place.
* `Matcher.nth_iff_place` is the meaning of a counter, and of an only child.
-/

namespace Selectors

/-- The element siblings of a node in the order of the tree, itself among them. A node without a
parent has no other. -/
def Tree.elementSiblings (t : Tree) (n : NodeId) : List NodeId :=
  ((t.parent n).elim [n] t.children).filter t.view.isElement

namespace Tree

variable {t : Tree} {n : NodeId}

/-- The siblings before a node are listed backwards, and those after it forwards. -/
theorem Linked.elementSiblings_eq (h : t.Linked) (hn : t.view.isElement n = true) :
    t.elementSiblings n = ((t.precedingSiblings n).filter t.view.isElement).reverse ++
      n :: (t.followingSiblings n).filter t.view.isElement := by
  unfold elementSiblings
  cases hp : t.parent n with
  | none =>
      obtain ⟨hbefore, hafter⟩ := h.siblings_of_root hp
      rw [hbefore, hafter]
      simp [hn]
  | some p =>
      obtain ⟨pre, post, hsplit⟩ := h.exists_split hp
      obtain ⟨hbefore, hafter⟩ := h.siblings hsplit
      rw [hbefore, hafter, Option.elim_some, hsplit, List.filter_append, List.filter_cons_of_pos hn,
        List.filter_reverse, List.reverse_reverse]

/-- No element is among its siblings twice. -/
theorem Linked.nodup_elementSiblings (h : t.Linked) (n : NodeId) :
    (t.elementSiblings n).Nodup := by
  unfold elementSiblings
  cases t.parent n with
  | none => exact (List.nodup_singleton n).filter _
  | some p => exact (h.nodup p).filter _

end Tree

namespace Matcher

/-- Whether a list selects a node: a row for some member ends in it. -/
def Selects (t : Tree) (m : Matcher) (l : ListId) (n : NodeId) : Prop :=
  ∃ id ∈ (m.arena.list l).complexes, ∃ e, Row t m m.shadow (m.arena.complex id) e ∧
    e (m.arena.complex id).combinators.length = n

/-- Whether a counter counts the element `x` for the node `n`: one of its type, where the type is
asked for, and one that the list selects, where there is one. -/
structure Counts (t : Tree) (m : Matcher) (kind : NthKind) (filter : Option ListId)
    (n x : NodeId) : Prop where
  type : kind.countsType = true →
    t.view.localName x = t.view.localName n ∧ t.view.space x = t.view.space n
  picked : ∀ l, filter = some l → Selects t m l x

open Classical in
/-- The siblings that are counted for a node, from the end where counting starts. -/
noncomputable def counted (t : Tree) (m : Matcher) (kind : NthKind) (filter : Option ListId)
    (n : NodeId) : List NodeId :=
  let siblings := (t.elementSiblings n).filter fun x => Counts t m kind filter n x
  if kind.fromEnd then siblings.reverse else siblings

/-- What a pseudo-class that stands alone says of a node, wherever its name was compiled. -/
def Answers (m : Matcher) (memory : MatchMemory) (name : String) (n : NodeId) (b : Bool) : Prop :=
  ∀ nested ctx text arena, ∃ p,
    runFrom (Compile.pseudoClass nested ctx name none text) arena = (.ok p, arena) ∧
      (runFrom (m.matchPseudo m.inside m.shadow n p) memory).1 = .ok b

variable {t : Tree} {m : Matcher} {kind : NthKind} {formula : AnB} {filter : Option ListId}
  {n : NodeId}

/-! ### Places -/

/-- In a row without repeats an element stands at one place. -/
theorem getElem?_eq_some_iff_length {α : Type} {before after : List α} {x : α}
    (h : (before ++ x :: after).Nodup) (i : Nat) :
    (before ++ x :: after)[i]? = some x ↔ i = before.length := by
  have hplace : (before ++ x :: after)[before.length]? = some x := by simp
  constructor
  · intro hi
    have hlt : before.length < (before ++ x :: after).length := by simp
    exact ((List.getElem?_inj hlt h).mp (hplace.trans hi.symm)).symm
  · rintro rfl
    exact hplace

/-- What is counted are siblings that count. -/
theorem mem_counted {x : NodeId} : x ∈ counted t m kind filter n ↔
    x ∈ t.elementSiblings n ∧ Counts t m kind filter n x := by
  unfold counted
  dsimp only
  split <;> simp

/-- No node is counted twice. -/
theorem nodup_counted (h : t.Linked) (n : NodeId) : (counted t m kind filter n).Nodup := by
  classical
  have hfiltered := (h.nodup_elementSiblings n).filter
    fun x => decide (Counts t m kind filter n x)
  unfold counted
  dsimp only
  split
  · exact List.nodup_reverse.mpr hfiltered
  · exact hfiltered

variable {c : NodeId → Bool}

/-- What lies on the side where counting starts comes before the node, the nearest last. -/
theorem exists_counted_eq (h : t.Linked) (hn : t.view.isElement n = true)
    (hc : ∀ x, c x = true ↔ Counts t m kind filter n x) (hself : c n = true) :
    ∃ after, counted t m kind filter n =
      (((if kind.fromEnd then t.followingSiblings n else t.precedingSiblings n).filter
        t.view.isElement).filter c).reverse ++ n :: after := by
  classical
  have hkept : ((t.elementSiblings n).filter fun x => Counts t m kind filter n x) =
        (((t.precedingSiblings n).filter t.view.isElement).filter c).reverse ++
          n :: ((t.followingSiblings n).filter t.view.isElement).filter c := by
    rw [← List.filter_reverse, ← List.filter_cons_of_pos hself, ← List.filter_append,
      ← h.elementSiblings_eq hn]
    refine List.filter_congr fun x _ => ?_
    rw [Bool.eq_iff_iff, decide_eq_true_iff, hc]
  unfold counted
  dsimp only
  rw [hkept]
  cases kind.fromEnd with
  | false => exact ⟨_, rfl⟩
  | true =>
      refine ⟨((t.precedingSiblings n).filter t.view.isElement).filter c, ?_⟩
      simp

/-- **The number of siblings on one side tells the place** among those that are counted, if the node
itself is.  A node that is not counted stands nowhere in the list. -/
theorem includes_iff_place (h : t.Linked) (hn : t.view.isElement n = true)
    (hc : ∀ x, c x = true ↔ Counts t m kind filter n x) :
    (c n = true ∧ formula.includes
        ((((if kind.fromEnd then t.followingSiblings n else t.precedingSiblings n).filter
          t.view.isElement).filter c).length + 1) = true) ↔
      ∃ i : Nat, (counted t m kind filter n)[i]? = some n ∧
        ∃ k : Nat, (i : Int) + 1 = formula.a * k + formula.b := by
  rw [AnB.includes_iff]
  by_cases hself : c n = true
  · obtain ⟨after, hcounted⟩ := exists_counted_eq h hn hc hself
    have hnodup : (counted t m kind filter n).Nodup := nodup_counted h n
    rw [hcounted] at hnodup ⊢
    simp only [getElem?_eq_some_iff_length hnodup, List.length_reverse, exists_eq_left, hself,
      true_and]
  · constructor
    · intro hposition
      exact absurd hposition.1 hself
    · intro hposition
      obtain ⟨i, hi, -⟩ := hposition
      exact absurd ((hc n).mpr (mem_counted.mp (List.mem_of_getElem? hi)).2) hself

/-! ### Counting -/

/-- Filtering by tests that keep no memory. -/
theorem runFrom_filterM_pure (c : NodeId → Bool) (xs : List NodeId) (s : MatchMemory) :
    runFrom (xs.filterM fun x => (Pure.pure (c x) : Matching Bool)) s = (.ok (xs.filter c), s) := by
  induction xs with
  | nil => rfl
  | cons x xs ih =>
      rw [filterM_cons, List.filter_cons]
      refine (runFrom_bind_ok (runFrom_pure (c x) s)).trans ((runFrom_bind_ok ih).trans ?_)
      cases c x <;> rfl

/-- Without a list a counter needs no memory. -/
theorem runFrom_matchNth_none (sub : Nested) (σ : ShadowScope) (s : MatchMemory) :
    runFrom (m.matchNth sub σ kind formula none n) s = (.ok (formula.includes
      ((((if kind.fromEnd then m.tree.followingSiblings n else m.tree.precedingSiblings n).filter
        m.tree.isElement).filter fun x => !kind.countsType || m.tree.sameType x n).length + 1)),
      s) := by
  have htest : (fun x => if kind.countsType then (Pure.pure (m.tree.sameType x n) : Matching Bool)
      else Pure.pure true) = fun x => Pure.pure (!kind.countsType || m.tree.sameType x n) := by
    funext x
    cases kind.countsType <;> rfl
  unfold matchNth
  dsimp only
  rw [htest]
  exact runFrom_bind_ok (runFrom_filterM_pure _ _ s)

variable {f : Frame} {k : Nat} {σ : ShadowScope} {l : ListId}

/-- A list tests whether a row for some member ends in the node. -/
theorem Infallible.tests_list (H : Infallible t m f.routes) (hl : l.index < m.arena.listCount)
    (hk : l.index ≤ k) (hσ : f.Fits t (f.routes.list l) σ n) :
    Tests t m f k (m.inside.list σ l n)
      (∃ id ∈ (m.arena.list l).complexes, ∃ e, Row t m σ (m.arena.complex id) e ∧
        e (m.arena.complex id).combinators.length = n) := by
  rw [inside_list H.tree H.view H.described.toSound hl]
  refine (Tests.anyM fun id hid => H.tests_complex hl hk hid none hσ).congr ?_
  refine exists_congr fun id => and_congr_right fun _ => exists_congr fun e => ?_
  exact and_congr_right fun _ => and_iff_left rfl

open Classical in
/-- With a list a counter tests the node and then the siblings on one side. -/
theorem Infallible.tests_nth (H : Infallible t m f.routes) (formula : AnB)
    (hl : l.index < m.arena.listCount) (hk : l.index ≤ k)
    (hσ : f.Fits t (f.routes.list l) m.shadow n) (hkind : kind.countsType = false) :
    Tests t m f k (m.matchNth m.inside m.shadow kind formula (some l) n)
      (Selects t m l n ∧ formula.includes
        ((((if kind.fromEnd then t.followingSiblings n else t.precedingSiblings n).filter
          t.view.isElement).filter fun x => Selects t m l x).length + 1) = true) := by
  have hside : ∀ x ∈ (if kind.fromEnd then t.followingSiblings n
      else t.precedingSiblings n).filter t.view.isElement,
        Tests t m f k (m.inside.list m.shadow l x) (Selects t m l x) := by
    intro x hx
    have hsibling : x ∈ t.precedingSiblings n ∨ x ∈ t.followingSiblings n := by
      have hmem := (List.mem_filter.mp hx).1
      split at hmem
      · exact Or.inr hmem
      · exact Or.inl hmem
    exact H.tests_list hl hk (hσ.congr (rootOf_of_sibling H.tree hsibling))
  unfold matchNth
  dsimp only
  rw [hkind, H.view]
  refine (H.tests_list hl hk hσ).and ?_
  exact ⟨_, (Tests.yields_filterM hside).bind (Yields.pure _), Iff.rfl⟩

/-! ### An only child -/

/-- A name that stands alone and is compiled to one pseudo-class. -/
theorem answers_of_name {name : String} (known : PseudoClassName) {p : PseudoClass}
    (hname : PseudoClassName.ofText? name = some known) (hallows : known.allows false = true)
    (hmade : ∀ nested ctx text,
      Compile.namedPseudoClass nested ctx known name none text = Pure.pure p)
    {memory : MatchMemory} {b : Bool}
    (hrun : (runFrom (m.matchPseudo m.inside m.shadow n p) memory).1 = .ok b) :
    m.Answers memory name n b := by
  intro nested ctx text arena
  refine ⟨p, ?_, hrun⟩
  unfold Compile.pseudoClass
  rw [hname]
  dsimp only [Option.isSome_none]
  rw [if_pos hallows, hmade]
  rfl

/-- The first place is that of an element with nothing before it. -/
theorem includes_first (xs : List NodeId) :
    (AnB.mk 0 1).includes (xs.length + 1) = xs.isEmpty := by
  cases xs with
  | nil => rfl
  | cons x xs =>
      refine Bool.eq_false_iff.mpr fun h => ?_
      have hzero : ((x :: xs).length : Int) + 1 - 1 = 0 := beq_iff_eq.mp h
      rw [List.length_cons] at hzero
      omega

theorem isEmpty_filter_filter (p c : NodeId → Bool) (xs : List NodeId) :
    ((xs.filter p).filter c).isEmpty = !xs.any fun x => p x && c x := by
  have hand : (fun x => c x && p x) = fun x => p x && c x := funext fun x => Bool.and_comm _ _
  rw [List.filter_filter, hand, Bool.eq_iff_iff]
  simp

/-- **An only child is the first child and the last one**, and likewise among those of its type. -/
theorem only_eq_first_and_last (memory : MatchMemory) {whole first last : String}
    (hnames : (whole, first, last) ∈ [("only-child", "first-child", "last-child"),
      ("only-of-type", "first-of-type", "last-of-type")]) :
    ∃ b b', m.Answers memory first n b ∧ m.Answers memory last n b' ∧
      m.Answers memory whole n (b && b') := by
  have hfirst : ∀ kind : NthKind, (runFrom (m.matchPseudo m.inside m.shadow n
      (.nth kind ⟨0, 1⟩ none)) memory).1 =
        .ok (!(if kind.fromEnd then m.tree.followingSiblings n
          else m.tree.precedingSiblings n).any fun x =>
            m.tree.isElement x && (!kind.countsType || m.tree.sameType x n)) := by
    intro kind
    refine (congrArg Prod.fst (runFrom_matchNth_none m.inside m.shadow memory)).trans ?_
    rw [includes_first, isEmpty_filter_filter]
  simp only [List.mem_cons, Prod.mk.injEq, List.not_mem_nil, or_false] at hnames
  rcases hnames with ⟨rfl, rfl, rfl⟩ | ⟨rfl, rfl, rfl⟩
  · refine ⟨_, _,
      answers_of_name (.edge .child) (by decide +kernel) rfl (fun _ _ _ => rfl)
        (hfirst .child),
      answers_of_name (.edge .lastChild) (by decide +kernel) rfl (fun _ _ _ => rfl)
        (hfirst .lastChild),
      answers_of_name (.state .onlyChild) (by decide +kernel) rfl (fun _ _ _ => rfl) ?_⟩
    change Except.ok (m.tree.isOnly (fun _ => true) n) = _
    unfold TreeView.isOnly
    rw [List.any_append, Bool.not_or]
    rfl
  · refine ⟨_, _,
      answers_of_name (.edge .ofType) (by decide +kernel) rfl (fun _ _ _ => rfl)
        (hfirst .ofType),
      answers_of_name (.edge .lastOfType) (by decide +kernel) rfl (fun _ _ _ => rfl)
        (hfirst .lastOfType),
      answers_of_name (.state .onlyOfType) (by decide +kernel) rfl (fun _ _ _ => rfl) ?_⟩
    have hsame : m.tree.sameType n = fun x => m.tree.sameType x n := by
      funext x
      unfold TreeView.sameType
      rw [BEq.comm, BEq.comm (a := m.tree.space n)]
    change Except.ok (m.tree.isOnly (m.tree.sameType n) n) = _
    unfold TreeView.isOnly
    rw [List.any_append, Bool.not_or, hsame]
    rfl

/-! ### Counters -/

/-- Elements are of the same type if name and namespace are the same. -/
theorem sameType_iff {t : TreeView} {x n : NodeId} :
    t.sameType x n = true ↔ t.localName x = t.localName n ∧ t.space x = t.space n := by
  unfold TreeView.sameType
  rw [Bool.and_eq_true, beq_iff_eq, beq_iff_eq]

/-- **A counter picks the elements at the places of its formula**, in the list of those siblings
that it counts and from the end where it starts.  So it says from every memory that calls for its
list have left.  And the pseudo-classes for an only child agree with those for the first and the
last.  In the cases with a list, the list alone says what is counted. -/
theorem nth_iff_place (ht : t.Proper) {text : String} {s : CompiledSelector}
    (hs : compile text = .ok s) (htree : m.tree = t.view) (harena : m.arena = s.arena)
    (hlenient : m.strict = false) (hplain : ¬m.arena.NamesPrefix) {d : CompoundId}
    {written : AnB} (hnth : .pseudo (.nth kind written filter) ∈ (m.arena.compound d).simples)
    {memory : MatchMemory} (hused : ∀ l, filter = some l → m.Used l memory)
    (hn : t.view.isElement n = true) (formula : AnB) :
    (∃ b, (runFrom (m.matchPseudo m.inside m.shadow n (.nth kind formula filter)) memory).1 =
        .ok b ∧
      (b = true ↔ ∃ i : Nat, (counted t m kind filter n)[i]? = some n ∧
        ∃ k : Nat, (i : Int) + 1 = formula.a * k + formula.b)) ∧
    ∀ whole first last, (whole, first, last) ∈ [("only-child", "first-child", "last-child"),
        ("only-of-type", "first-of-type", "last-of-type")] →
      ∃ b b', m.Answers memory first n b ∧ m.Answers memory last n b' ∧
        m.Answers memory whole n (b && b') := by
  refine ⟨?_, fun whole first last hnames => only_eq_first_and_last memory hnames⟩
  have hlinked := ht.wellFormed.toLinked
  cases filter with
  | none =>
      refine ⟨_, congrArg Prod.fst (runFrom_matchNth_none m.inside m.shadow memory), ?_⟩
      rw [htree]
      have hcounts : ∀ x, (!kind.countsType || t.view.sameType x n) = true ↔
          Counts t m kind none n x := by
        intro x
        rw [Bool.or_eq_true, Bool.not_eq_true', sameType_iff]
        constructor
        · intro h
          refine ⟨fun htype => ?_, fun l hl => by cases hl⟩
          rw [htype] at h
          exact h.resolve_left (by simp)
        · intro h
          cases htype : kind.countsType with
          | false => exact Or.inl rfl
          | true => exact Or.inr (h.type htype)
      rw [← includes_iff_place hlinked hn hcounts]
      refine (and_iff_right ?_).symm
      rw [(hcounts n).mpr ⟨fun _ => ⟨rfl, rfl⟩, fun l hl => by cases hl⟩]
  | some l =>
      classical
      obtain ⟨F, hF, -⟩ := compile_describes hs
      rw [← harena] at hF
      have hl := ((hF.compounds (Arena.lt_of_mem_compound hnth)).lists _ hnth l rfl).1
      have hkind : kind.countsType = false := by
        rw [harena] at hnth
        exact countsType_of_compile hs hnth
      have H : Infallible t m (m.callFrame F l).routes :=
        { tree := ht.wellFormed, view := htree, described := hF, lenient := hlenient
          plain := hplain }
      obtain ⟨b, hb, hposition⟩ := H.tests_nth formula hl (Nat.le_of_lt hl)
        (fits_callFrame t m F l n) hkind
      obtain ⟨s', hrun, -⟩ := hb memory ((hused l rfl).recalls H hl)
      refine ⟨b, congrArg Prod.fst hrun, hposition.trans ?_⟩
      have hcounts : ∀ x, decide (Selects t m l x) = true ↔ Counts t m kind (some l) n x := by
        intro x
        rw [decide_eq_true_iff]
        constructor
        · intro h
          refine ⟨fun htype => ?_, fun l' hl' => by cases hl'; exact h⟩
          rw [hkind] at htype
          cases htype
        · exact fun h => h.picked l rfl
      rw [← includes_iff_place hlinked hn hcounts, decide_eq_true_iff]

/-- The first of two paragraphs, counted from the end. -/
theorem nth_iff_place_attachedBox :
    ∃ s, compile ":nth-last-child(2n of p)" = .ok s ∧
      let m : Matcher := { tree := Tree.attachedBox.view, arena := s.arena, root := s.root }
      (runFrom (m.matchPseudo m.inside none 2 (.nth .lastChild ⟨2, 0⟩ (some ⟨0⟩))) {}).1 =
          .ok true ∧
        ∃ i : Nat, (counted Tree.attachedBox m .lastChild (some ⟨0⟩) 2)[i]? = some 2 ∧
          ∃ k : Nat, (i : Int) + 1 = 2 * k + 0 := by
  let s := (compile ":nth-last-child(2n of p)").toOption.get (by decide +kernel)
  have hs : compile ":nth-last-child(2n of p)" = .ok s := by
    decide +kernel
  let m : Matcher := { tree := Tree.attachedBox.view, arena := s.arena, root := s.root }
  have hrun : (runFrom (m.matchPseudo m.inside none 2
      (.nth .lastChild ⟨2, 0⟩ (some ⟨0⟩))) {}).1 = .ok true := by
    decide +kernel
  have hplain : ¬m.arena.NamesPrefix := by
    decide +kernel
  have hnth : .pseudo (.nth .lastChild ⟨2, 0⟩ (some ⟨0⟩)) ∈ (m.arena.compound ⟨1⟩).simples := by
    decide +kernel
  obtain ⟨⟨b, hb, hplace⟩, -⟩ := nth_iff_place (m := m) (n := 2) Tree.attachedBox_proper hs rfl
    rfl rfl hplain hnth (fun l hl => by cases hl; exact Used.new) (by decide +kernel) ⟨2, 0⟩
  rw [hrun] at hb
  cases hb
  exact ⟨s, hs, hrun, hplace.mp rfl⟩

end Matcher

end Selectors

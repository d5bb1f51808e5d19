import Selectors.Proofs.Compiled.Wrapping
import Selectors.Matching.Basic

/-!
# Matching one test

A list with one test and nothing else matches an element where the test does: the rows of tests,
compounds and members around it have one part each.  A node that is no element is not tested in the
same way, and a test that it never passes makes a list that never matches it.

* `Matcher.nested_of_holdsTest` and `Matcher.nested_of_featureless` are about elements and other
  nodes, where the list stands inside of a selector.
* `Matcher.nested_of_holdsAlone` is the case of a pseudo-class, and `Matcher.has_of_holdsAlone` is
  about one in the argument of `:has()`.
* `Matcher.matchesNode_of_holdsTest`, `Matcher.matchesNode_of_featureless` and
  `Matcher.matchesNode_of_holdsAlone` are about a whole selector.
-/

namespace Selectors

namespace Matcher

variable {m : Matcher} {p : PseudoClass} {s : SimpleSelector} {l : ListId} {n : NodeId}

/-- A test that is asked and answered. -/
theorem bind_answer (x : Matching Bool) :
    (x >>= fun b => if b = true then Pure.pure true else Pure.pure false) = x := by
  have hanswer : (fun b : Bool => if b = true then Pure.pure true else Pure.pure false) =
      (Pure.pure : Bool → Matching Bool) := by
    funext b
    cases b <;> rfl
  rw [hanswer, bind_pure]

theorem anyM_singleton {α : Type} (f : α → Matching Bool) (x : α) : [x].anyM f = f x := by
  refine Eq.trans ?_ (bind_answer (f x))
  unfold List.anyM
  refine bind_congr fun b => ?_
  cases b <;> rfl

theorem allM_singleton {α : Type} (f : α → Matching Bool) (x : α) : [x].allM f = f x := by
  refine Eq.trans ?_ (bind_answer (f x))
  unfold List.allM
  refine bind_congr fun b => ?_
  cases b <;> rfl

/-- The one member of a list with one test, with an anchor or without one: its compound decides, and
the relation to the anchor after it. -/
theorem exists_member_of_holdsTest (h : m.arena.HoldsTest s l) :
    ∃ c d, (m.arena.list l).complexes = [c] ∧ (m.arena.compound d).pseudoElement = none ∧
      (m.arena.compound d).inOrder = [s] ∧ ∀ sub anchor σ n, m.matchComplex sub anchor σ c n = do
        if !(← m.matchCompound sub σ d n) then
          return false
        return anchor.all fun r => m.tree.related r.2 n r.1 := by
  obtain ⟨-, c, d, hlist, -, hfirst, hjoined, -, hpseudo, horder⟩ := h
  refine ⟨c, d, hlist, hpseudo, horder, fun sub anchor σ n => ?_⟩
  have hsubject : (m.arena.complex c).subject = d := by
    rw [ComplexSelector.subject, hjoined, ← hfirst]
    rfl
  have hleftward : (m.arena.complex c).leftward = [] := by
    simp [ComplexSelector.leftward, ComplexSelector.combinators, hjoined]
  unfold matchComplex
  dsimp only
  rw [hsubject, hleftward, matchChain]

/-! ### Compounds with one test -/

section

variable {d : CompoundId} (hpseudo : (m.arena.compound d).pseudoElement = none)
  (horder : (m.arena.compound d).inOrder = [s]) (sub : Nested) (σ : ShadowScope)

include hpseudo horder

/-- A lone test is asked of an element as it is. -/
theorem matchCompound_of_element (hn : m.tree.isElement n = true) :
    m.matchCompound sub σ d n = m.matchSimple sub σ n s := by
  unfold matchCompound
  dsimp only
  rw [hpseudo, horder]
  dsimp only
  rw [if_pos hn, allM_singleton]

/-- A lone test refuses a node without features if the test for such nodes does. -/
theorem matchCompound_of_featureless (hn : m.tree.isElement n = false)
    (hs : ∀ isHost isScope, m.matchFeature sub σ isHost isScope n s = Pure.pure false) :
    m.matchCompound sub σ d n = Pure.pure false := by
  unfold matchCompound
  dsimp only
  rw [hpseudo]
  dsimp only
  rw [if_neg (Bool.eq_false_iff.mp hn), matchFeatureless, horder]
  split
  · rfl
  · rw [allM_singleton, hs]

end

/-! ### Lists with one test -/

/-- A list with one test matches a node where its compound does. -/
theorem exists_compound_of_holdsTest (h : m.arena.HoldsTest s l) :
    ∃ d, (m.arena.compound d).pseudoElement = none ∧ (m.arena.compound d).inOrder = [s] ∧
      ∀ depth σ n, (m.nested (depth + 1)).list σ l n = m.matchCompound (m.nested depth) σ d n := by
  obtain ⟨c, d, hlist, hpseudo, horder, hmember⟩ := exists_member_of_holdsTest h
  refine ⟨d, hpseudo, horder, fun depth σ n => ?_⟩
  simp only [nested, hlist, anyM_singleton, hmember _ none]
  refine Eq.trans (bind_congr fun b => ?_) (bind_answer _)
  cases b <;> rfl

/-- A list with one test matches an element where the test does. -/
theorem nested_of_holdsTest (h : m.arena.HoldsTest s l) (hn : m.tree.isElement n = true)
    (depth : Nat) (σ : ShadowScope) :
    (m.nested (depth + 1)).list σ l n = m.matchSimple (m.nested depth) σ n s := by
  obtain ⟨d, hpseudo, horder, hlist⟩ := exists_compound_of_holdsTest h
  rw [hlist, matchCompound_of_element hpseudo horder _ σ hn]

/-- A list with a test that no other node passes matches elements only. -/
theorem nested_of_featureless (h : m.arena.HoldsTest s l) (hn : m.tree.isElement n = false)
    (hs : ∀ sub σ isHost isScope, m.matchFeature sub σ isHost isScope n s = Pure.pure false)
    (depth : Nat) (σ : ShadowScope) : (m.nested (depth + 1)).list σ l n = Pure.pure false := by
  obtain ⟨d, hpseudo, horder, hlist⟩ := exists_compound_of_holdsTest h
  rw [hlist, matchCompound_of_featureless hpseudo horder _ σ hn (hs _ σ)]

/-- A list with one pseudo-class matches an element where the pseudo-class does. -/
theorem nested_of_holdsAlone (h : m.arena.HoldsAlone p l) (hn : m.tree.isElement n = true)
    (depth : Nat) (σ : ShadowScope) :
    (m.nested (depth + 1)).list σ l n = m.matchPseudo (m.nested depth) σ n p :=
  nested_of_holdsTest (Arena.holdsAlone_iff.mp h) hn depth σ

theorem anyM_congr {α : Type} {f g : α → Matching Bool} {xs : List α}
    (h : ∀ x ∈ xs, f x = g x) : xs.anyM f = xs.anyM g := by
  induction xs with
  | nil => rfl
  | cons x xs ih =>
      unfold List.anyM
      rw [h x List.mem_cons_self, ih fun y hy => h y (List.mem_cons_of_mem x hy)]

/-- `:has()` with one pseudo-class and no combinator asks for an element below the anchor. -/
theorem has_of_holdsAlone (h : m.arena.HoldsAlone p l)
    (hlead : ∀ c ∈ (m.arena.list l).complexes,
      (m.arena.complex c).leading.getD .descendant = .descendant)
    (depth : Nat) (σ : ShadowScope) (a : NodeId) :
    (m.nested (depth + 1)).has σ l a =
      m.answerOnce (a, l) ((m.tree.elementsBelow a).anyM fun x => do
        if !(← m.matchPseudo (m.nested depth) σ x p) then
          return false
        return m.tree.related a x .descendant) := by
  obtain ⟨c, d, hlist, hpseudo, horder, hmember⟩ :=
    exists_member_of_holdsTest (Arena.holdsAlone_iff.mp h)
  have hlead' := hlead c (by simp [hlist])
  have hcandidates : m.candidates (m.arena.complex c) a = m.tree.elementsBelow a := by
    unfold candidates
    rw [hlead']
  have hrelative : m.matchRelative (m.nested depth) σ a c =
      (m.tree.elementsBelow a).anyM
        (m.matchComplex (m.nested depth) (some (.descendant, a)) σ c) := by
    unfold matchRelative
    dsimp only
    rw [hcandidates, hlead']
  simp only [nested, hlist, anyM_singleton, hrelative]
  refine congrArg (m.answerOnce (a, l)) (anyM_congr fun x hx => ?_)
  have hx' : m.tree.isElement x = true := (List.mem_filter.mp hx).2
  rw [hmember, matchCompound_of_element hpseudo horder _ σ hx']
  rfl

/-! ### Selectors -/

/-- A selector that is one test matches an element where the test does. -/
theorem matchesNode_of_holdsTest (h : m.arena.HoldsTest s m.root) (hn : m.tree.isElement n = true) :
    m.matchesNode n = m.matchSimple m.inside m.shadow n s :=
  nested_of_holdsTest h hn m.arena.listCount m.shadow

/-- A lone test refuses a node without features, whatever is asked inside. -/
theorem matchesNode_of_featureless (h : m.arena.HoldsTest s m.root)
    (hn : m.tree.isElement n = false)
    (hs : ∀ sub σ isHost isScope, m.matchFeature sub σ isHost isScope n s = Pure.pure false) :
    m.matchesNode n = Pure.pure false :=
  nested_of_featureless h hn hs m.arena.listCount m.shadow

/-- A selector that is one pseudo-class matches an element where the pseudo-class does. -/
theorem matchesNode_of_holdsAlone (h : m.arena.HoldsAlone p m.root)
    (hn : m.tree.isElement n = true) :
    m.matchesNode n = m.matchPseudo m.inside m.shadow n p :=
  nested_of_holdsAlone h hn m.arena.listCount m.shadow

end Matcher

end Selectors

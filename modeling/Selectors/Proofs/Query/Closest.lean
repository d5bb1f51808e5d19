import Selectors.Proofs.Query.Agreement

/-!
# The closest match

Looking for the closest match asks of one node after another, on the way up, whether it matches.
All of them are asked in the call for the first one, which keeps its `:scope`, its shadow scope and
what it remembers.  Where a selector does not ask for `:scope` this is the same as a call of its own
for each of them: the shadow scope is that of the tree, which the way up does not leave, and answers
do not depend on what is remembered.

* `Tree.Lineage` is the way up.
* `Engine.saysYes` is the answer of a call of its own, and `Engine.closest_eq_find` the result.
-/

namespace Selectors

namespace Tree

/-- The nodes from `n` up to the root of its tree, each followed by its parent. -/
structure Lineage (t : Tree) (n : NodeId) (line : List NodeId) : Prop where
  head : line.head? = some n
  parents : line.IsChain fun a b => t.parent a = some b
  top : ∀ a, line.getLast? = some a → t.parent a = none

variable {t : Tree}

/-- A node and its ancestors are its lineage. -/
theorem WellFormed.lineage_ancestors (h : t.WellFormed) (n : NodeId) :
    t.Lineage n (n :: t.ancestors n) := by
  refine ⟨rfl, ?_, fun a ha => ?_⟩
  · induction n using h.upward with
    | root n hp =>
        rw [h.ancestors_of_root hp]
        exact List.IsChain.singleton n
    | child n p hp ih =>
        rw [h.ancestors_of_parent hp]
        exact List.isChain_cons_cons.mpr ⟨hp, ih⟩
  · have hroot : a = t.rootOf n := by
      rw [List.getLast?_cons] at ha
      exact (Option.some.inj ha).symm
    rw [hroot]
    exact h.parent_rootOf n

/-- The way up does not leave the tree. -/
theorem WellFormed.rootOf_of_mem_lineage (h : t.WellFormed) {n a : NodeId}
    (ha : a ∈ n :: t.ancestors n) : t.rootOf a = t.rootOf n := by
  rcases List.mem_cons.mp ha with rfl | ha
  · rfl
  · exact (h.rootOf_of_below (h.mem_ancestors.mp ha)).symm

end Tree

namespace Matcher

variable {t : Tree} {m : Matcher} {F : Routes} {n : NodeId}

/-- The first match in a row of nodes is the first one that the test holds of, if the test is right
for the elements of the row. -/
theorem Infallible.yields_firstMatch (H : Infallible t m F) {p : NodeId → Bool} {ns : List NodeId}
    (helement : ∀ a ∈ ns, p a = true → t.view.isElement a = true)
    (hp : ∀ a ∈ ns, t.view.isElement a = true →
      (p a = true ↔ ∃ id ∈ (m.arena.list m.root).complexes, ∃ e, RowTo t m id a e)) :
    Yields t m (m.callFrame F m.root) m.arena.listCount (m.firstMatch ns) (ns.find? p) := by
  induction ns with
  | nil => exact Yields.pure none
  | cons a ns ih =>
      have hrest := ih (fun b hb => helement b (List.mem_cons_of_mem a hb))
        (fun b hb => hp b (List.mem_cons_of_mem a hb))
      unfold firstMatch
      cases ha : m.tree.isElement a with
      | false =>
          have hno : p a = false := by
            rw [Bool.eq_false_iff]
            intro hyes
            have hview := helement a List.mem_cons_self hyes
            rw [← H.view, ha] at hview
            cases hview
          rw [List.find?_cons_of_neg (by simp [hno])]
          exact hrest
      | true =>
          rw [H.view] at ha
          obtain ⟨b, hb, hrow⟩ := H.tests_matchesSome (l := m.root) (fun id hid => hid) a
          have hsame : p a = b := by
            rw [Bool.eq_iff_iff, hp a List.mem_cons_self ha, hrow]
          cases b with
          | false =>
              rw [List.find?_cons_of_neg (by simp [hsame])]
              exact hb.bind hrest
          | true =>
              rw [List.find?_cons_of_pos hsame]
              exact hb.bind (Yields.pure (some a))

end Matcher

namespace Engine

/-- Whether a node is an element that a call of its own says matches. -/
def saysYes (e : Engine) (t : TreeView) (settings : Settings) (text : String) (n : NodeId) : Bool :=
  t.isElement n && (e.matchesNode t settings text n).1.result.toOption.getD false

variable {t : Tree} {settings : Settings} {text : String} {s : CompiledSelector} {n : NodeId}

/-- **A call of its own** tells of an element whether some member has a row to it. -/
theorem matchesNode_iff_rowTo (ht : t.Proper) {F : Routes} (hF : F.Describes s.arena) {e : Engine}
    (he : e.Reached) (hlenient : settings.strict = false) (hs : Selectors.compile text = .ok s)
    (hplain : ¬s.arena.NamesPrefix) (hn : t.view.isElement n = true) :
    ∃ b, (e.matchesNode t.view settings text n).1.result = .ok b ∧
      (b = true ↔ ∃ id ∈ (s.arena.list s.root).complexes, ∃ row,
        (Query.of t.view s n settings).matcher.RowTo t id n row) := by
  let m := (Query.of t.view s n settings).matcher
  have H : m.Infallible t F := Query.infallible ht hF hlenient hplain
  obtain ⟨b, hb, hmatches⟩ := H.tests_matchesSome (l := s.root) (fun id hid => hid) n
  obtain ⟨memory, hone, -⟩ := hb {} (Matcher.recalls_new t m _ _)
  exact ⟨b, he.matchesNode_result hs hn hone, hmatches⟩

/-- **The closest match is the nearest single match**: the first node on the way up, from the
element itself to the root of its tree, of which a call of its own says that it matches.  Between
two of these calls the matchers differ in the scope only. -/
theorem closest_eq_find (ht : t.Proper) {e : Engine} (he : e.Reached) {e' : NodeId → Engine}
    (he' : ∀ a, (e' a).Reached) (hlenient : settings.strict = false)
    (hs : Selectors.compile text = .ok s) (hscope : ¬s.arena.AsksScope)
    (hplain : ¬s.arena.NamesPrefix) (hn : t.view.isElement n = true) :
    ∃ line, t.Lineage n line ∧
      (e.closest t.view settings text n).1.result =
        .ok (line.find? fun a => (e' a).saysYes t.view settings text a) ∧
      ∀ a ∈ line, t.rootOf a = t.rootOf n ∧ (t.view.isElement a = true →
        ∃ b, ((e' a).matchesNode t.view settings text a).1.result = .ok b) := by
  obtain ⟨F, hF, -⟩ := compile_describes hs
  have hanswer := fun {a : NodeId} (ha : t.view.isElement a = true) =>
    matchesNode_iff_rowTo ht hF (he' a) hlenient hs hplain ha
  let m := (Query.of t.view s n settings).matcher
  have H : m.Infallible t F := Query.infallible ht hF hlenient hplain
  have hline : t.view.ancestors n = t.ancestors n := rfl
  have hyields : Matcher.Yields t m (m.callFrame F m.root) m.arena.listCount
      (m.firstMatch (n :: t.ancestors n))
      ((n :: t.ancestors n).find? fun a => (e' a).saysYes t.view settings text a) := by
    refine H.yields_firstMatch (fun a _ hyes => (Bool.and_eq_true_iff.mp hyes).1) ?_
    intro a ha helement
    obtain ⟨b, hb, hrows⟩ := hanswer helement
    have hsay : (e' a).saysYes t.view settings text a = b := by
      unfold saysYes
      rw [helement, hb]
      rfl
    have hsame : (Query.of t.view s a settings).matcher = m.tuned (some a) false true :=
      Query.matcher_of_sameTree hlenient (ht.wellFormed.rootOf_of_mem_lineage ha)
    rw [hsay, hrows, hsame]
    refine exists_congr fun id => and_congr_right fun hid => exists_congr fun row => ?_
    exact H.rowTo_tuned hscope hid (some a)
  obtain ⟨memory, hrun, -⟩ := hyields {} (Matcher.recalls_new t m _ _)
  refine ⟨n :: t.ancestors n, ht.wellFormed.lineage_ancestors n, ?_, fun a ha => ?_⟩
  · change ((e.run t.view settings text n .nearest).1.result).map _ = _
    rw [he.run_result_of_ok t.view settings hs]
    have hfind : runFrom ((Query.of t.view s n settings).find .nearest) {} =
        (.ok ((n :: t.ancestors n).find?
          fun a => (e' a).saysYes t.view settings text a).toList, memory) := by
      have hnearest : m.nearestMatch n = m.firstMatch (n :: t.ancestors n) := by
        rw [Matcher.nearestMatch]
        exact if_pos hn
      change runFrom (do return (← m.nearestMatch n).toList) {} = _
      rw [hnearest, runFrom_bind_ok hrun]
      rfl
    rw [hfind]
    change Except.ok _ = Except.ok _
    rw [Option.head?_toList]
  · refine ⟨ht.wellFormed.rootOf_of_mem_lineage ha, fun helement => ?_⟩
    obtain ⟨b, hb, -⟩ := hanswer helement
    exact ⟨b, hb⟩

/-- The detached box: the nearest match of a paragraph is its parent. -/
theorem closest_eq_find_detachedBox :
    (closest {} Tree.detachedBox.view {} ":not(p)" 2).1.result = .ok (some 1) ∧
      ∃ line, Tree.detachedBox.Lineage 2 line ∧
        line.find? (fun a => saysYes {} Tree.detachedBox.view {} ":not(p)" a) = some 1 := by
  have hclosest : (closest {} Tree.detachedBox.view {} ":not(p)" 2).1.result = .ok (some 1) := by
    decide +kernel
  let s := (Selectors.compile ":not(p)").toOption.get (by decide +kernel)
  have hs : Selectors.compile ":not(p)" = .ok s := by
    decide +kernel
  have hnew : ∀ a : NodeId, ((fun _ => {} : NodeId → Engine) a).Reached := fun _ => .new
  have hlenient : ({} : Settings).strict = false := rfl
  obtain ⟨line, hline, hfind, -⟩ := closest_eq_find Tree.detachedBox_proper .new hnew hlenient hs
    (by decide +kernel) (by decide +kernel) (n := 2) (by decide +kernel)
  rw [hclosest] at hfind
  exact ⟨hclosest, line, hline, (Except.ok.inj hfind).symm⟩

end Engine

end Selectors

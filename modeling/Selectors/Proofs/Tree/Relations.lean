import Selectors.Matching.Relation
import Selectors.Proofs.Tree.Cursor

/-!
# What the combinators mean

Each combinator is a relation between two nodes of a tree, read off parents and child lists.  The
three ways in which matching follows a combinator, to the left, to the right and between two given
nodes, all follow this one relation.

* `Tree.Joins` is the relation.
* `Tree.WellFormed.mem_leftOf`, `Tree.WellFormed.mem_rightOf` and `Tree.WellFormed.related_iff` are
  the three ways.
* `Tree.WellFormed.rootOf_of_joins`: only a slot leads out of a tree.
-/

namespace Selectors

namespace Tree

/-- In some child list `a` comes before `n`, and `between` lies between the two. -/
def SiblingBefore (t : Tree) (a : NodeId) (between : List NodeId) (n : NodeId) : Prop :=
  ∃ p pre post, t.children p = pre ++ a :: (between ++ n :: post)

/-- What a combinator says of the node `a` on its left and the node `n` on its right. -/
def Joins (t : Tree) (q : Combinator) (a n : NodeId) : Prop :=
  match q with
  | .descendant => t.Below n a
  | .child => t.parent n = some a
  | .nextSibling =>
    t.view.isElement a = true ∧
      ∃ between, t.SiblingBefore a between n ∧ ∀ m ∈ between, t.view.isElement m = false
  | .subsequentSibling => t.view.isElement a = true ∧ ∃ between, t.SiblingBefore a between n
  | .slot => t.findSlot n = some a

variable {t : Tree}

/-! ### Siblings -/

/-- The siblings before a node, nearest first, up to one of them. -/
theorem Linked.precedingSiblings_eq_iff (h : t.Linked) {a n : NodeId} {near : List NodeId} :
    (∃ far, t.precedingSiblings n = near ++ a :: far) ↔ t.SiblingBefore a near.reverse n := by
  constructor
  · rintro ⟨far, hfar⟩
    cases hp : t.parent n with
    | none =>
        rw [(h.siblings_of_root hp).1] at hfar
        exact absurd hfar (by simp)
    | some p =>
        obtain ⟨pre, post, hsplit⟩ := h.exists_split hp
        have hpre : pre = far.reverse ++ a :: near.reverse := by
          have hrev := congrArg List.reverse ((h.siblings hsplit).1.symm.trans hfar)
          simpa using hrev
        exact ⟨p, far.reverse, post, by rw [hsplit, hpre, List.append_assoc, List.cons_append]⟩
  · rintro ⟨p, pre, post, hsplit⟩
    have hsplit' : t.children p = (pre ++ a :: near.reverse) ++ n :: post := by
      rw [hsplit, List.append_assoc, List.cons_append]
    exact ⟨pre.reverse, by rw [(h.siblings hsplit').1]; simp⟩

/-- The siblings behind a node, up to one of them. -/
theorem Linked.followingSiblings_eq_iff (h : t.Linked) {a n : NodeId} {near : List NodeId} :
    (∃ far, t.followingSiblings a = near ++ n :: far) ↔ t.SiblingBefore a near n := by
  constructor
  · rintro ⟨far, hfar⟩
    cases hp : t.parent a with
    | none =>
        rw [(h.siblings_of_root hp).2] at hfar
        exact absurd hfar (by simp)
    | some p =>
        obtain ⟨pre, post, hsplit⟩ := h.exists_split hp
        exact ⟨p, pre, far, by rw [hsplit, ← (h.siblings hsplit).2, hfar]⟩
  · rintro ⟨p, pre, post, hsplit⟩
    exact ⟨post, (h.siblings hsplit).2⟩

/-- What comes before a node is listed before it, wherever what lies between is left open. -/
theorem Linked.mem_precedingSiblings (h : t.Linked) {a n : NodeId} :
    a ∈ t.precedingSiblings n ↔ ∃ between, t.SiblingBefore a between n := by
  rw [List.mem_iff_append]
  constructor
  · rintro ⟨near, far, hfar⟩
    exact ⟨near.reverse, h.precedingSiblings_eq_iff.mp ⟨far, hfar⟩⟩
  · rintro ⟨between, hbefore⟩
    rw [← between.reverse_reverse] at hbefore
    obtain ⟨far, hfar⟩ := h.precedingSiblings_eq_iff.mpr hbefore
    exact ⟨between.reverse, far, hfar⟩

/-- The siblings behind a node are those that it stands before. -/
theorem Linked.mem_followingSiblings (h : t.Linked) {a n : NodeId} :
    n ∈ t.followingSiblings a ↔ ∃ between, t.SiblingBefore a between n := by
  rw [List.mem_iff_append]
  exact exists_congr fun near => h.followingSiblings_eq_iff

/-- The previous element is the one that the next-sibling combinator joins. -/
theorem Linked.previousElement?_eq_some (h : t.Linked) {a n : NodeId} :
    t.view.previousElement? n = some a ↔ t.Joins .nextSibling a n := by
  change (t.precedingSiblings n).find? t.view.isElement = some a ↔ _
  rw [List.find?_eq_some_iff_append]
  refine and_congr_right fun _ => ?_
  constructor
  · rintro ⟨near, far, hfar, hnear⟩
    refine ⟨near.reverse, h.precedingSiblings_eq_iff.mp ⟨far, hfar⟩, ?_⟩
    intro m hm
    simpa using hnear m (List.mem_reverse.mp hm)
  · rintro ⟨between, hbefore, hbetween⟩
    rw [← between.reverse_reverse] at hbefore
    obtain ⟨far, hfar⟩ := h.precedingSiblings_eq_iff.mpr hbefore
    refine ⟨between.reverse, far, hfar, ?_⟩
    intro m hm
    simpa using hbetween m (List.mem_reverse.mp hm)

/-- The next element is the one that the next-sibling combinator joins. -/
theorem Linked.nextElement?_eq_some (h : t.Linked) {a n : NodeId}
    (ha : t.view.isElement a = true) :
    t.view.nextElement? a = some n ↔ t.view.isElement n = true ∧ t.Joins .nextSibling a n := by
  change (t.followingSiblings a).find? t.view.isElement = some n ↔ _
  rw [List.find?_eq_some_iff_append]
  refine and_congr_right fun _ => ?_
  constructor
  · rintro ⟨near, far, hfar, hnear⟩
    refine ⟨ha, near, h.followingSiblings_eq_iff.mp ⟨far, hfar⟩, ?_⟩
    intro m hm
    simpa using hnear m hm
  · rintro ⟨-, between, hbefore, hbetween⟩
    obtain ⟨far, hfar⟩ := h.followingSiblings_eq_iff.mpr hbefore
    refine ⟨between, far, hfar, ?_⟩
    intro m hm
    simpa using hbetween m hm

/-- Siblings have the same parent. -/
theorem Linked.parent_of_siblingBefore (h : t.Linked) {a n : NodeId} {between : List NodeId}
    (hbefore : t.SiblingBefore a between n) : ∃ p, t.parent a = some p ∧ t.parent n = some p := by
  obtain ⟨p, pre, post, hsplit⟩ := hbefore
  refine ⟨p, h.mem_children.mp ?_, h.mem_children.mp ?_⟩ <;> simp [hsplit]

/-- Standing before a sibling is transitive. -/
theorem Linked.siblingBefore_trans (h : t.Linked) {a x n : NodeId} {near far : List NodeId}
    (hax : t.SiblingBefore a near x) (hxn : t.SiblingBefore x far n) :
    ∃ between, t.SiblingBefore a between n := by
  rw [← h.mem_followingSiblings]
  have hn : n ∈ t.followingSiblings x := h.mem_followingSiblings.mpr ⟨far, hxn⟩
  obtain ⟨p, pre, post, hsplit⟩ := hax
  have hx : t.children p = (pre ++ a :: near) ++ x :: post := by
    rw [hsplit, List.append_assoc, List.cons_append]
  rw [(h.siblings hx).2] at hn
  rw [(h.siblings hsplit).2]
  exact List.mem_append_right _ (List.mem_cons_of_mem _ hn)

/-- What stands beside a node that lies below `a` lies below `a` itself. -/
theorem Linked.below_of_siblingBefore (h : t.Linked) {x n a : NodeId} {between : List NodeId}
    (hbefore : t.SiblingBefore x between n) (hx : t.Below x a) : t.Below n a := by
  obtain ⟨p, hxp, hnp⟩ := h.parent_of_siblingBefore hbefore
  rw [below_iff_of_parent hxp] at hx
  rw [below_iff_of_parent hnp]
  exact hx

/-! ### Following a combinator -/

/-- **To the left** a combinator leads to the nodes that it joins. -/
theorem WellFormed.mem_leftOf (h : t.WellFormed) {q : Combinator} {a n : NodeId} :
    a ∈ t.view.leftOf n q ↔ t.Joins q a n := by
  cases q with
  | descendant => exact h.mem_ancestors
  | child =>
      rw [TreeView.leftOf, Option.mem_toList]
      rfl
  | nextSibling =>
      rw [TreeView.leftOf, Option.mem_toList]
      exact h.previousElement?_eq_some
  | subsequentSibling =>
      rw [TreeView.leftOf, List.mem_filter, and_comm]
      exact and_congr_right fun _ => h.mem_precedingSiblings
  | slot =>
      rw [TreeView.leftOf, Option.mem_toList]
      rfl

/-- **To the right** a combinator leads from an element to the elements that it joins. -/
theorem WellFormed.mem_rightOf (h : t.WellFormed) {q : Combinator} (hq : q ≠ .slot)
    {a n : NodeId} (ha : t.view.isElement a = true) :
    n ∈ t.view.rightOf a q ↔ t.view.isElement n = true ∧ t.Joins q a n := by
  cases q with
  | descendant =>
      rw [TreeView.rightOf, TreeView.elementsBelow, h.view_descendants, List.mem_filter,
        h.mem_descendants, and_comm]
      rfl
  | child =>
      rw [TreeView.rightOf, h.mem_elementChildren, and_comm]
      rfl
  | nextSibling =>
      rw [TreeView.rightOf, Option.mem_toList]
      exact h.nextElement?_eq_some ha
  | subsequentSibling =>
      rw [TreeView.rightOf, List.mem_filter, and_comm]
      refine and_congr_right fun _ => ?_
      change n ∈ t.followingSiblings a ↔ _
      rw [h.mem_followingSiblings]
      exact ⟨fun hbefore => ⟨ha, hbefore⟩, And.right⟩
  | slot => exact absurd rfl hq

/-- **Between an element and a node** a combinator is tested by what it means. -/
theorem WellFormed.related_iff (h : t.WellFormed) {q : Combinator} {a n : NodeId}
    (ha : t.view.isElement a = true) : t.view.related a n q = true ↔ t.Joins q a n := by
  cases q with
  | descendant =>
      rw [TreeView.related, List.contains_iff_mem]
      exact h.mem_ancestors
  | child =>
      rw [TreeView.related, beq_iff_eq]
      rfl
  | nextSibling =>
      rw [TreeView.related, beq_iff_eq]
      exact h.previousElement?_eq_some
  | subsequentSibling =>
      rw [TreeView.related, List.contains_iff_mem]
      change a ∈ t.precedingSiblings n ↔ _
      rw [h.mem_precedingSiblings]
      exact ⟨fun hbefore => ⟨ha, hbefore⟩, And.right⟩
  | slot =>
      rw [TreeView.related, beq_iff_eq]
      rfl

/-- What stands on the right of a combinator has a parent. -/
theorem WellFormed.exists_parent_of_joins (h : t.WellFormed) {q : Combinator} {a n : NodeId}
    (hq : q ≠ .slot) (hjoins : t.Joins q a n) : ∃ p, t.parent n = some p := by
  cases q with
  | descendant =>
      obtain ⟨p, hp, -⟩ := Relation.TransGen.head'_iff.mp hjoins
      exact ⟨p, hp⟩
  | child => exact ⟨a, hjoins⟩
  | nextSibling =>
      obtain ⟨-, between, hbefore, -⟩ := hjoins
      obtain ⟨p, -, hp⟩ := h.parent_of_siblingBefore hbefore
      exact ⟨p, hp⟩
  | subsequentSibling =>
      obtain ⟨-, between, hbefore⟩ := hjoins
      obtain ⟨p, -, hp⟩ := h.parent_of_siblingBefore hbefore
      exact ⟨p, hp⟩
  | slot => exact absurd rfl hq

/-- To the right no combinator but a slot leads out of a subtree. -/
theorem WellFormed.below_of_joins (h : t.WellFormed) {q : Combinator} (hq : q ≠ .slot)
    {x n a : NodeId} (hjoins : t.Joins q x n) (hx : t.Below x a) : t.Below n a := by
  cases q with
  | descendant => exact Relation.TransGen.trans hjoins hx
  | child => exact (below_iff_of_parent hjoins).mpr (Or.inr hx)
  | nextSibling =>
      obtain ⟨-, between, hbefore, -⟩ := hjoins
      exact h.below_of_siblingBefore hbefore hx
  | subsequentSibling =>
      obtain ⟨-, between, hbefore⟩ := hjoins
      exact h.below_of_siblingBefore hbefore hx
  | slot => exact absurd rfl hq

/-- **Only a slot leads out of a tree.** -/
theorem WellFormed.rootOf_of_joins (h : t.WellFormed) {q : Combinator} (hq : q ≠ .slot)
    {a n : NodeId} (hjoins : t.Joins q a n) : t.rootOf a = t.rootOf n := by
  have hsiblings : ∀ {between}, t.SiblingBefore a between n → t.rootOf a = t.rootOf n := by
    intro between hbefore
    obtain ⟨p, ha, hn⟩ := h.parent_of_siblingBefore hbefore
    rw [h.rootOf_of_parent ha, h.rootOf_of_parent hn]
  cases q with
  | descendant => exact (h.rootOf_of_below hjoins).symm
  | child => exact (h.rootOf_of_parent hjoins).symm
  | nextSibling =>
      obtain ⟨-, between, hbefore, -⟩ := hjoins
      exact hsiblings hbefore
  | subsequentSibling =>
      obtain ⟨-, between, hbefore⟩ := hjoins
      exact hsiblings hbefore
  | slot => exact absurd rfl hq

end Tree

end Selectors

import Mathlib.Tactic.TFAE
import Selectors.Proofs.Tree.Slots

/-!
# One relation for each combinator

A combinator is followed in three ways.  A query that descends from an id collects what stands on
the right of an element, `:has()` tests whether two given elements are related, and a match that
goes from right to left tries what may stand on the left.  Each way reads other links: the child
lists and the links to the next sibling, the links to the parent and to the previous sibling, or
the host's children and the slots of its shadow tree.

* `Tree.WellFormed.mem_rightOf_iff` follows all combinators to the right, slots among them.
* `Tree.Proper.combinatorsAgree` says that the three ways find one relation, `Tree.Joins`.
-/

namespace Selectors.Tree

variable {t : Tree} {a b : NodeId}

/-- To the right a combinator leads from an element to the elements that it joins.  What a slot
takes may be text, which no other combinator leads to. -/
theorem WellFormed.mem_rightOf_iff (h : t.WellFormed) (q : Combinator)
    (ha : t.view.isElement a = true) (hb : t.view.isElement b = true) :
    b ∈ t.view.rightOf a q ↔ t.Joins q a b := by
  cases q with
  | slot => exact h.mem_assignedNodes
  | _ =>
      rw [h.mem_rightOf (by simp) ha]
      exact and_iff_right hb

/-- **The three ways of following a combinator agree.**  Between elements a combinator leads to the
right, passes the test and leads to the left exactly where it joins the two. -/
theorem Proper.combinatorsAgree (ht : t.Proper) (q : Combinator)
    (ha : t.view.isElement a = true) (hb : t.view.isElement b = true) :
    [t.Joins q a b, b ∈ t.view.rightOf a q, t.view.related a b q = true,
      a ∈ t.view.leftOf b q].TFAE := by
  have h := ht.wellFormed
  tfae_have 2 ↔ 1 := h.mem_rightOf_iff q ha hb
  tfae_have 3 ↔ 1 := h.related_iff ha
  tfae_have 4 ↔ 1 := h.mem_leftOf
  tfae_finish

/-- The host with its slots, and one more paragraph behind the text. -/
def slottedRow : List Change :=
  slottedBox ++ [.create (.element (Element.named (some Namespace.html) "p")), .insert 1 7 none]

/-- A row with a slot in it: the combinators agree there. -/
theorem combinatorsAgree_slottedRow :
    let t := slottedRow.foldl apply (Tree.empty .html)
    t.view.rightOf 5 .slot = [2] ∧ t.view.rightOf 2 .nextSibling = [7] ∧
      [t.Joins .slot 5 2, 2 ∈ t.view.rightOf 5 .slot, t.view.related 5 2 .slot = true,
        5 ∈ t.view.leftOf 2 .slot].TFAE ∧
      [t.Joins .nextSibling 2 7, 7 ∈ t.view.rightOf 2 .nextSibling,
        t.view.related 2 7 .nextSibling = true, 2 ∈ t.view.leftOf 7 .nextSibling].TFAE := by
  intro t
  have hempty := Proper.empty .html
  have ht : t.Proper := hempty.foldl (hempty.admits_of_insertsBare (by decide +kernel))
  exact ⟨by decide +kernel, by decide +kernel,
    ht.combinatorsAgree .slot (by decide +kernel) (by decide +kernel),
    ht.combinatorsAgree .nextSibling (by decide +kernel) (by decide +kernel)⟩

end Selectors.Tree

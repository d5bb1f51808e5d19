import Mathlib.Data.List.Flatten
import Selectors.Proofs.Tree.Ancestry

/-!
# Tree order

The listing of a subtree is the node and then the listings of the subtrees of its children.  The
walk with a stack of nodes computes that list, and it holds what stands below a node, each node
once.

* `Tree.subtree` is the recursive listing, `Tree.WellFormed.subtree_eq` its equation.
* `Tree.WellFormed.mem_subtree` and `Tree.WellFormed.nodup_subtree` say what it holds.
* `Tree.WellFormed.descendants_eq`: the walk with a stack lists the subtrees of the children.
-/

namespace Selectors

/-- A node and what lies at most `bound` levels deep in its subtree, each node before its children.
-/
def sprout (children : NodeId → List NodeId) : Nat → NodeId → List NodeId
  | 0, _ => []
  | bound + 1, n => n :: (children n).flatMap (sprout children bound)

namespace Tree

/-- The nodes of a subtree in tree order.  No node lies deeper than there are nodes. -/
def subtree (t : Tree) (n : NodeId) : List NodeId :=
  sprout t.children (t.size + 1) n

variable {t : Tree}

/-- What stands below a node is deeper. -/
theorem WellFormed.depth_lt_of_below (h : t.WellFormed) {n a : NodeId} (hna : t.Below n a) :
    t.depth a < t.depth n := by
  induction hna using Relation.TransGen.head_induction_on with
  | single hp => exact h.depth_of_parent hp ▸ Nat.lt_succ_self _
  | head hp _ ih => exact Nat.lt_trans ih (h.depth_of_parent hp ▸ Nat.lt_succ_self _)

/-- Of the nodes at one depth, at most one has a given node in its subtree. -/
theorem WellFormed.eq_of_depth_eq (h : t.WellFormed) {n a b : NodeId}
    (ha : n = a ∨ t.Below n a) (hb : n = b ∨ t.Below n b) (hdepth : t.depth a = t.depth b) :
    a = b := by
  induction n using h.upward with
  | root n hp =>
      have hnot : ∀ {c}, ¬ t.Below n c := by
        intro c hc
        have hmem := h.mem_ancestors.mpr hc
        rw [h.ancestors_of_root hp] at hmem
        cases hmem
      exact (ha.resolve_right hnot).symm.trans (hb.resolve_right hnot)
  | child n p hp ih =>
      rcases ha with rfl | ha <;> rcases hb with rfl | hb
      · rfl
      · exact absurd hdepth (Nat.ne_of_gt (h.depth_lt_of_below hb))
      · exact absurd hdepth (Nat.ne_of_lt (h.depth_lt_of_below ha))
      · exact ih (below_iff_of_parent hp |>.mp ha) (below_iff_of_parent hp |>.mp hb)

/-- A listing does not change any more once the bound is as large as the subtree is high. -/
private theorem sprout_eq (h : t.WellFormed) (bound : Nat) (n : NodeId)
    (hbound : t.size ≤ bound + t.depth n) :
    sprout t.children (bound + 1) n =
      n :: (t.children n).flatMap (sprout t.children (bound + 1)) := by
  induction bound generalizing n with
  | zero =>
      have hleaf : t.children n = [] := by
        refine List.eq_nil_iff_forall_not_mem.mpr ?_
        intro c hc
        have hdepth := h.depth_of_parent (h.mem_children.mp hc)
        have hle := h.depth_le c
        omega
      simp [sprout, hleaf]
  | succ bound ih =>
      rw [sprout]
      refine congrArg (n :: ·) (List.flatMap_congr ?_)
      intro c hc
      have hdepth := h.depth_of_parent (h.mem_children.mp hc)
      rw [ih c (by omega), sprout]

/-- **A subtree is listed as its root and the subtrees of its children.** -/
theorem WellFormed.subtree_eq (h : t.WellFormed) (n : NodeId) :
    t.subtree n = n :: (t.children n).flatMap t.subtree :=
  sprout_eq h t.size n (Nat.le_add_right ..)

/-- The subtree of a node is the node and what stands below it. -/
theorem WellFormed.mem_subtree (h : t.WellFormed) {n m : NodeId} :
    m ∈ t.subtree n ↔ m = n ∨ t.Below m n := by
  induction n using h.downward with
  | node n ih =>
      rw [h.subtree_eq, List.mem_cons, List.mem_flatMap, below_iff_exists_child]
      refine or_congr_right (exists_congr fun c => ?_)
      rw [h.mem_children]
      exact and_congr_right fun hc => ih c (h.mem_children.mpr hc)

/-- A subtree lists no node twice. -/
theorem WellFormed.nodup_subtree (h : t.WellFormed) (n : NodeId) : (t.subtree n).Nodup := by
  induction n using h.downward with
  | node n ih =>
      rw [h.subtree_eq, List.nodup_cons, List.nodup_flatMap]
      refine ⟨?_, ih, ?_⟩
      · intro hmem
        obtain ⟨c, hc, hnc⟩ := List.mem_flatMap.mp hmem
        refine h.not_below_self n (below_iff_exists_child.mpr ⟨c, h.mem_children.mp hc, ?_⟩)
        exact h.mem_subtree.mp hnc
      · refine (h.nodup n).pairwise_of_forall_ne ?_
        intro a ha b hb hne m hma hmb
        refine hne (h.eq_of_depth_eq (h.mem_subtree.mp hma) (h.mem_subtree.mp hmb) ?_)
        rw [h.depth_of_parent (h.mem_children.mp ha), h.depth_of_parent (h.mem_children.mp hb)]

/-! ### The walk with a stack -/

/-- The walk with a stack lists the subtrees on it one by one, up to the bound. -/
theorem preorder_eq_take (h : t.WellFormed) (bound : Nat) (stack : List NodeId) :
    preorder t.children bound stack = (stack.flatMap t.subtree).take bound := by
  induction bound generalizing stack with
  | zero => simp [preorder]
  | succ bound ih =>
      cases stack with
      | nil => simp [preorder]
      | cons n stack => simp [preorder, ih, h.subtree_eq n, List.flatMap_append]

/-- The part of a subtree below its root is no longer than the store is large. -/
theorem WellFormed.length_below_le (h : t.WellFormed) (n : NodeId) :
    ((t.children n).flatMap t.subtree).length ≤ t.size := by
  have hnd := h.nodup_subtree n
  rw [h.subtree_eq] at hnd
  refine length_le_of_nodup_lt (List.nodup_cons.mp hnd).2 ?_
  intro m hm
  obtain ⟨c, hc, hmc⟩ := List.mem_flatMap.mp hm
  rcases h.mem_subtree.mp hmc with rfl | hbelow
  · exact lt_size_of_parent (h.mem_children.mp hc)
  · exact hbelow.lt_size

/-- **The walk with a stack is complete**: it lists the subtrees of the children. -/
theorem WellFormed.descendants_eq (h : t.WellFormed) (n : NodeId) :
    t.descendants n = (t.children n).flatMap t.subtree := by
  rw [descendants, preorder_eq_take h, List.take_of_length_le (h.length_below_le n)]

/-- A subtree begins with its node. -/
theorem WellFormed.subtree_eq_cons (h : t.WellFormed) (n : NodeId) :
    t.subtree n = n :: t.descendants n := by
  rw [h.subtree_eq, h.descendants_eq]

/-- The descendants of a node are listed once each. -/
theorem WellFormed.nodup_descendants (h : t.WellFormed) (n : NodeId) :
    (t.descendants n).Nodup := by
  have hnd := h.nodup_subtree n
  rw [h.subtree_eq_cons] at hnd
  exact (List.nodup_cons.mp hnd).2

/-- The descendants of a node are what stands below it. -/
theorem WellFormed.mem_descendants (h : t.WellFormed) {n m : NodeId} :
    m ∈ t.descendants n ↔ t.Below m n := by
  rw [h.descendants_eq, List.mem_flatMap, below_iff_exists_child]
  refine exists_congr fun c => ?_
  rw [h.mem_children, h.mem_subtree]

end Tree

end Selectors

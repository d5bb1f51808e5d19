import Selectors.Proofs.Tree.Preorder

/-!
# Document order

Comparing two nodes by their paths puts them in the order of one list: of two trees the one whose
root was made first comes first, and inside of a tree the order is tree order.  So the comparison is
a total order, and sorting by it gives an increasing list.

* `Tree.WellFormed.pairwise_subtree`: a listed subtree is increasing.
* `Tree.WellFormed.precedes_iff` reduces the comparison to two comparisons of numbers.
* `Tree.WellFormed.pairwise_sortNodes` and `TreeView.mem_sortNodes`: sorting gives an increasing
  list of the same nodes, and by `Tree.WellFormed.eq_of_mem_iff` there is only one.
-/

namespace Selectors

namespace Tree

/-- `a` comes before `b` in document order. -/
def Precedes (t : Tree) (a b : NodeId) : Prop :=
  (t.position a b).isFollowing = true

variable {t : Tree}

/-! ### Paths -/

/-- The path to a child is the path to its parent and the child. -/
theorem WellFormed.path_of_parent (h : t.WellFormed) {n p : NodeId} (hp : t.parent n = some p) :
    t.path n = t.path p ++ [n] := by
  simp [path, h.ancestors_of_parent hp]

/-- A path ends with its node. -/
theorem getLast?_path (t : Tree) (n : NodeId) : (t.path n).getLast? = some n := by
  simp [path]

/-- The path to a node goes through every node that it stands in. -/
theorem WellFormed.path_of_below (h : t.WellFormed) {n a : NodeId}
    (hna : n = a ∨ t.Below n a) : ∃ rest, t.path n = t.path a ++ rest := by
  induction n using h.upward with
  | root n hp =>
      have hnot : ¬ t.Below n a := by
        rw [← h.mem_ancestors, h.ancestors_of_root hp]
        exact List.not_mem_nil
      exact ⟨[], by rw [hna.resolve_right hnot, List.append_nil]⟩
  | child n p hp ih =>
      rcases hna with rfl | hbelow
      · exact ⟨[], (List.append_nil _).symm⟩
      · obtain ⟨rest, hrest⟩ := ih ((below_iff_of_parent hp).mp hbelow)
        exact ⟨rest ++ [n], by rw [h.path_of_parent hp, hrest, List.append_assoc]⟩

/-- Only what comes after a common beginning decides the order of two paths. -/
private theorem branchOrder_append (t : Tree) (q : NodeId) (l as bs : List NodeId) :
    t.branchOrder q (l ++ as) (l ++ bs) = t.branchOrder (l.getLast?.getD q) as bs := by
  induction l generalizing q with
  | nil => rfl
  | cons a l ih =>
      rw [List.cons_append, List.cons_append, branchOrder, if_pos rfl, ih]
      cases l with
      | nil => rfl
      | cons b l => simp [List.getLast?_cons]

/-! ### Two nodes of one tree -/

/-- What stands below another node is contained by it. -/
theorem WellFormed.position_of_below (h : t.WellFormed) {n a : NodeId} (hna : t.Below n a) :
    t.position a n = .containedBy ∧ t.position n a = .contains := by
  have hne : n ≠ a := by
    rintro rfl
    exact h.not_below_self n hna
  have hroot := h.rootOf_of_below hna
  have hnot : n ∉ t.ancestors a := by
    rw [h.mem_ancestors]
    exact fun hback => h.not_below_self n (hna.trans hback)
  have hmem : a ∈ t.ancestors n := h.mem_ancestors.mpr hna
  constructor <;> simp [position, hne, Ne.symm hne, hroot, hnot, hmem]

/-- Nodes below two children of one node are in the order of these children. -/
theorem WellFormed.position_of_branches (h : t.WellFormed) {p c d a b : NodeId}
    (hc : c ∈ t.children p) (hd : d ∈ t.children p) (hne : c ≠ d)
    (ha : a = c ∨ t.Below a c) (hb : b = d ∨ t.Below b d) :
    t.position a b =
      if (t.children p).idxOf d < (t.children p).idxOf c then .preceding else .following := by
  have hcp := h.mem_children.mp hc
  have hdp := h.mem_children.mp hd
  have hdepth : t.depth c = t.depth d := by
    rw [h.depth_of_parent hcp, h.depth_of_parent hdp]
  have hin : ∀ {n m top}, t.Below n m → (m = top ∨ t.Below m top) → n = top ∨ t.Below n top := by
    rintro n m top hnm (rfl | hm)
    · exact Or.inr hnm
    · exact Or.inr (hnm.trans hm)
  have hab : a ≠ b := fun heq => hne (h.eq_of_depth_eq ha (heq ▸ hb) hdepth)
  have habove : b ∉ t.ancestors a := by
    rw [h.mem_ancestors]
    exact fun hup => hne (h.eq_of_depth_eq ha (hin hup hb) hdepth)
  have hbelow : a ∉ t.ancestors b := by
    rw [h.mem_ancestors]
    exact fun hup => hne (h.eq_of_depth_eq (hin hup ha) hb hdepth)
  have hroot : ∀ {n e}, t.parent e = some p → (n = e ∨ t.Below n e) →
      t.rootOf n = t.rootOf p := by
    rintro n e he (rfl | hn)
    · exact h.rootOf_of_parent he
    · exact (h.rootOf_of_below hn).trans (h.rootOf_of_parent he)
  obtain ⟨as, has⟩ := h.path_of_below ha
  obtain ⟨bs, hbs⟩ := h.path_of_below hb
  have hpaths : t.branchOrder root (t.path a) (t.path b) = t.branchOrder p (c :: as) (d :: bs) := by
    rw [has, hbs, h.path_of_parent hcp, h.path_of_parent hdp, List.append_assoc,
      List.append_assoc, branchOrder_append, getLast?_path]
    rfl
  rw [position, if_neg hab, if_neg (by rw [hroot hcp ha, hroot hdp hb]; exact not_not.mpr rfl),
    if_neg habove, if_neg hbelow, hpaths, branchOrder, if_neg hne]

/-- In a list without repeats the first places increase. -/
private theorem pairwise_idxOf {l : List NodeId} (hnd : l.Nodup) :
    l.Pairwise fun a b => l.idxOf a < l.idxOf b := by
  rw [List.pairwise_iff_getElem]
  intro i j hi hj hij
  rwa [hnd.idxOf_getElem i hi, hnd.idxOf_getElem j hj]

/-- **A listed subtree is increasing**, and no pair of it is increasing the other way round. -/
theorem WellFormed.pairwise_subtree (h : t.WellFormed) (n : NodeId) :
    (t.subtree n).Pairwise fun a b => t.Precedes a b ∧ ¬ t.Precedes b a := by
  induction n using h.downward with
  | node n ih =>
      rw [h.subtree_eq, List.pairwise_cons, List.pairwise_flatMap]
      refine ⟨?_, ih, ?_⟩
      · intro m hm
        rw [← h.descendants_eq, h.mem_descendants] at hm
        obtain ⟨hdown, hup⟩ := h.position_of_below hm
        simp [Precedes, hdown, hup, Position.isFollowing]
      · refine (pairwise_idxOf (h.nodup n)).imp_of_mem ?_
        intro c d hc hd hlt a ha b hb
        have hne : c ≠ d := by
          rintro rfl
          exact Nat.lt_irrefl _ hlt
        rw [h.mem_subtree] at ha hb
        have hforth := h.position_of_branches hc hd hne ha hb
        have hback := h.position_of_branches hd hc (Ne.symm hne) hb ha
        rw [if_neg (Nat.not_lt_of_gt hlt)] at hforth
        rw [if_pos hlt] at hback
        simp [Precedes, hforth, hback, Position.isFollowing]

/-! ### All nodes of the store -/

/-- The place of a node in the listing of its tree. -/
def rankInTree (t : Tree) (n : NodeId) : Nat :=
  (t.subtree (t.rootOf n)).idxOf n

/-- Every node is in the subtree of the root of its tree. -/
theorem WellFormed.mem_subtree_rootOf (h : t.WellFormed) (n : NodeId) :
    n ∈ t.subtree (t.rootOf n) :=
  h.mem_subtree.mpr (h.eq_rootOf_or_below n)

/-- Two nodes of one tree have different places in its walk. -/
theorem WellFormed.rankInTree_ne (h : t.WellFormed) {a b : NodeId} (hab : a ≠ b)
    (hroot : t.rootOf a = t.rootOf b) : t.rankInTree a ≠ t.rankInTree b := by
  unfold rankInTree
  rw [← hroot]
  exact fun heq => hab ((List.idxOf_inj (h.mem_subtree_rootOf a)).mp heq)

/-- **Document order is lexicographic**: trees by their roots, the nodes of a tree as listed. -/
theorem WellFormed.precedes_iff (h : t.WellFormed) {a b : NodeId} :
    t.Precedes a b ↔ t.rootOf a < t.rootOf b ∨
      t.rootOf a = t.rootOf b ∧ t.rankInTree a < t.rankInTree b := by
  by_cases hab : a = b
  · subst hab
    simp [Precedes, position, Position.isFollowing]
  by_cases hroot : t.rootOf a = t.rootOf b
  · have hna : ¬ t.rootOf a < t.rootOf b := by
      rw [hroot]
      exact Nat.lt_irrefl _
    have hne := h.rankInTree_ne hab hroot
    obtain ⟨ha, hb⟩ := h.mem_subtree_rootOf a, h.mem_subtree_rootOf b
    unfold rankInTree at hne ⊢
    rw [← hroot] at hb hne ⊢
    have hpairs := List.pairwise_iff_getElem.mp (h.pairwise_subtree (t.rootOf a))
    have hia := List.idxOf_lt_length_iff.mpr ha
    have hib := List.idxOf_lt_length_iff.mpr hb
    have hforth := hpairs _ _ hia hib
    have hback := hpairs _ _ hib hia
    rw [List.getElem_idxOf, List.getElem_idxOf] at hforth hback
    constructor
    · intro hprec
      rcases Nat.lt_or_gt_of_ne hne with hlt | hgt
      · exact Or.inr ⟨rfl, hlt⟩
      · exact absurd hprec (hback hgt).2
    · rintro (hlt | ⟨-, hlt⟩)
      · exact absurd hlt (Nat.lt_irrefl _)
      · exact (hforth hlt).1
  · by_cases hlt : t.rootOf a < t.rootOf b
    · simp [Precedes, position, hab, hroot, hlt, Position.isFollowing]
    · simp [Precedes, position, hab, hroot, hlt, Position.isFollowing]

/-- Document order is transitive. -/
theorem WellFormed.precedes_trans (h : t.WellFormed) {a b c : NodeId} (hab : t.Precedes a b)
    (hbc : t.Precedes b c) : t.Precedes a c := by
  rw [h.precedes_iff] at hab hbc ⊢
  rcases hab with hab | ⟨hroot, hab⟩
  · rcases hbc with hbc | ⟨hroot', -⟩
    · exact Or.inl (Nat.lt_trans hab hbc)
    · exact Or.inl (hroot' ▸ hab)
  · rw [hroot]
    rcases hbc with hbc | ⟨hroot', hbc⟩
    · exact Or.inl hbc
    · exact Or.inr ⟨hroot', Nat.lt_trans hab hbc⟩

/-- No node precedes itself. -/
theorem WellFormed.not_precedes_self (h : t.WellFormed) (a : NodeId) : ¬ t.Precedes a a := by
  rw [h.precedes_iff]
  rintro (hlt | ⟨-, hlt⟩)
  · exact Nat.lt_irrefl _ hlt
  · exact Nat.lt_irrefl _ hlt

/-- Of two different nodes one comes first. -/
theorem WellFormed.precedes_total (h : t.WellFormed) {a b : NodeId} (hab : a ≠ b) :
    t.Precedes a b ∨ t.Precedes b a := by
  rw [h.precedes_iff, h.precedes_iff]
  rcases Nat.lt_trichotomy (t.rootOf a) (t.rootOf b) with hlt | hroot | hgt
  · exact Or.inl (Or.inl hlt)
  · rcases Nat.lt_or_gt_of_ne (h.rankInTree_ne hab hroot) with hlt | hgt
    · exact Or.inl (Or.inr ⟨hroot, hlt⟩)
    · exact Or.inr (Or.inr ⟨hroot.symm, hgt⟩)
  · exact Or.inr (Or.inl hgt)

/-- What stands below a node comes after it. -/
theorem WellFormed.precedes_of_below (h : t.WellFormed) {n a : NodeId} (hna : t.Below n a) :
    t.Precedes a n := by
  simp [Precedes, (h.position_of_below hna).1, Position.isFollowing]

/-- The descendants of a node are listed in document order. -/
theorem WellFormed.pairwise_descendants (h : t.WellFormed) (n : NodeId) :
    (t.descendants n).Pairwise t.Precedes := by
  have hpairs := h.pairwise_subtree n
  rw [h.subtree_eq_cons] at hpairs
  exact (List.pairwise_cons.mp hpairs).2.imp And.left

end Tree

/-! ### Sorting -/

namespace TreeView

/-- Dropping repeats drops no node. -/
theorem mem_dropRepeats {ns : List NodeId} {n : NodeId} : n ∈ dropRepeats ns ↔ n ∈ ns := by
  induction ns using dropRepeats.induct with
  | case1 a rest ih => simp [dropRepeats, ih]
  | case2 a b rest hne ih => simp [dropRepeats, hne, ih]
  | case3 ns hshort => rw [dropRepeats]; exact hshort

/-- Sorting keeps every node and adds none. -/
theorem mem_sortNodes (v : TreeView) {ns : List NodeId} {n : NodeId} :
    n ∈ v.sortNodes ns ↔ n ∈ ns := by
  rw [sortNodes, mem_dropRepeats, List.mem_mergeSort]

/-- Dropping repeats from a row that never goes down leaves a row that always goes up. -/
private theorem pairwise_dropRepeats {lt : NodeId → NodeId → Prop}
    (htrans : ∀ a b c, lt a b → lt b c → lt a c) {ns : List NodeId}
    (hns : ns.Pairwise fun a b => a = b ∨ lt a b) : (dropRepeats ns).Pairwise lt := by
  induction ns using dropRepeats.induct with
  | case1 a rest ih =>
      rw [dropRepeats, if_pos rfl]
      exact ih (List.pairwise_cons.mp hns).2
  | case2 a b rest hne ih =>
      rw [dropRepeats, if_neg hne]
      obtain ⟨hhead, htail⟩ := List.pairwise_cons.mp hns
      refine List.pairwise_cons.mpr ⟨?_, ih htail⟩
      intro x hx
      have hab : lt a b := (hhead b List.mem_cons_self).resolve_left hne
      rcases List.mem_cons.mp (mem_dropRepeats.mp hx) with rfl | hx
      · exact hab
      · rcases (List.pairwise_cons.mp htail).1 x hx with rfl | hbx
        · exact hab
        · exact htrans a b x hab hbx
  | case3 ns hshort =>
      rw [dropRepeats]
      · match ns, hshort with
        | [], _ => exact List.Pairwise.nil
        | [a], _ => exact List.pairwise_singleton lt a
        | a :: b :: rest, hshort => exact absurd rfl (hshort a b rest)
      · exact hshort

end TreeView

namespace Tree

variable {t : Tree}

/-- The comparison that is sorted by is equality or document order. -/
private theorem precedesOrSame_iff {a b : NodeId} :
    t.view.precedesOrSame a b = true ↔ a = b ∨ t.Precedes a b := by
  simp [TreeView.precedesOrSame, Precedes, view, bareView]

/-- **Sorted nodes are increasing in document order**, and so without repeats. -/
theorem WellFormed.pairwise_sortNodes (h : t.WellFormed) (ns : List NodeId) :
    (t.view.sortNodes ns).Pairwise t.Precedes := by
  have htrans : ∀ a b c, t.view.precedesOrSame a b = true → t.view.precedesOrSame b c = true →
      t.view.precedesOrSame a c = true := by
    intro a b c hab hbc
    rw [precedesOrSame_iff] at *
    rcases hab with rfl | hab
    · exact hbc
    · rcases hbc with rfl | hbc
      · exact Or.inr hab
      · exact Or.inr (h.precedes_trans hab hbc)
  have htotal : ∀ a b, (t.view.precedesOrSame a b || t.view.precedesOrSame b a) = true := by
    intro a b
    rw [Bool.or_eq_true, precedesOrSame_iff, precedesOrSame_iff]
    by_cases hab : a = b
    · exact Or.inl (Or.inl hab)
    · exact (h.precedes_total hab).imp Or.inr Or.inr
  apply TreeView.pairwise_dropRepeats
  · intro a b c hab hbc
    exact h.precedes_trans hab hbc
  · exact (List.pairwise_mergeSort htrans htotal ns).imp precedesOrSame_iff.mp

/-- A row that is increasing in document order has no repeats. -/
theorem WellFormed.nodup_of_pairwise (h : t.WellFormed) {ns : List NodeId}
    (hns : ns.Pairwise t.Precedes) : ns.Nodup := by
  refine hns.imp ?_
  rintro a b hab rfl
  exact h.not_precedes_self a hab

/-- Rows of the same nodes that are increasing in document order are one row. -/
theorem WellFormed.eq_of_mem_iff (h : t.WellFormed) {ns ns' : List NodeId}
    (hns : ns.Pairwise t.Precedes) (hns' : ns'.Pairwise t.Precedes)
    (hmem : ∀ n, n ∈ ns ↔ n ∈ ns') : ns = ns' := by
  have hperm : ns.Perm ns' :=
    (List.perm_ext_iff_of_nodup (h.nodup_of_pairwise hns) (h.nodup_of_pairwise hns')).mpr hmem
  refine hperm.eq_of_pairwise (fun a b _ _ hab hba => ?_) hns hns'
  exact absurd (h.precedes_trans hab hba) (h.not_precedes_self a)

end Tree

end Selectors

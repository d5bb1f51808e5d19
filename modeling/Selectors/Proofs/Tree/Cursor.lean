import Selectors.Cursor
import Selectors.Proofs.Tree.Preorder

/-!
# Cursors stay on their path

A cursor carries the nodes between its own and the root of its walk.  As long as they are the true
ancestors, the cursor knows all that the walk has still to visit: what is below its node, and what
comes after each node on the path.  Both ways to move keep the path true.

* `Cursor.OnPath` is the invariant, `Cursor.remaining` what the walk has still to visit.
* `Cursor.next_spec` is one step of the walk, `Tree.WellFormed.view_descendants` the whole of it:
  the walk with a cursor and the walk with a stack list the same nodes.
* `Cursor.moveTo_spec`: a cursor reaches exactly the nodes at or below its root.
-/

namespace Selectors

namespace Tree

/-- `above` leads from a node up to the root of a walk. -/
def Leads (t : Tree) (root : NodeId) : NodeId → List NodeId → Prop
  | n, [] => n = root
  | n, p :: above => t.parent n = some p ∧ Leads t root p above

/-- What a walk visits when it leaves a subtree: the subtrees after it, on each level of the path.
-/
def after (t : Tree) : NodeId → List NodeId → List NodeId
  | _, [] => []
  | n, p :: above => (t.followingSiblings n).flatMap t.subtree ++ after t p above

variable {t : Tree} {root : NodeId}

/-- A path leads to its root or below it. -/
theorem Leads.eq_or_below {n : NodeId} {above : List NodeId} (hl : t.Leads root n above) :
    n = root ∨ t.Below n root := by
  induction above generalizing n with
  | nil => exact Or.inl hl
  | cons p above ih => exact Or.inr ((below_iff_of_parent hl.1).mpr (ih hl.2))

/-- Every node on the path is the start of the rest of it. -/
theorem Leads.suffix {n a : NodeId} {above : List NodeId} (hl : t.Leads root n above)
    (ha : a ∈ above) : ∃ rest, above.dropWhile (· ≠ a) = a :: rest ∧ t.Leads root a rest := by
  induction above generalizing n with
  | nil => cases ha
  | cons p above ih =>
      by_cases hpa : p = a
      · subst hpa
        exact ⟨above, by simp, hl.2⟩
      · have hmem : a ∈ above := (List.mem_cons.mp ha).resolve_left (Ne.symm hpa)
        obtain ⟨rest, hrest, hleads⟩ := ih hl.2 hmem
        exact ⟨rest, by simpa [hpa] using hrest, hleads⟩

/-- The root is on each path that leads away from it. -/
theorem Leads.root_mem {n p : NodeId} {above : List NodeId} (hl : t.Leads root n (p :: above)) :
    root ∈ p :: above := by
  induction above generalizing n p with
  | nil => exact List.mem_singleton.mpr hl.2.symm
  | cons q above ih => exact List.mem_cons_of_mem _ (ih hl.2)

end Tree

namespace Cursor

variable {t : Tree}

/-- The path of a cursor is true: it leads from the node to the root. -/
def OnPath (t : Tree) (c : Cursor) : Prop :=
  t.Leads c.root c.node c.above

/-- What the walk of a cursor visits after its node. -/
def remaining (t : Tree) (c : Cursor) : List NodeId :=
  (t.children c.node).flatMap t.subtree ++ t.after c.node c.above

/-- A walk begins on its path. -/
theorem onPath_start (root : NodeId) : (start root).OnPath t :=
  rfl

/-- Where the links after a node lead: to nothing, or to the rest of the row. -/
private theorem next_spec_link (h : t.WellFormed) (n : NodeId) :
    (t.next n = none ∧ t.followingSiblings n = []) ∨
      ∃ s, t.next n = some s ∧ t.parent s = t.parent n ∧
        t.followingSiblings n = s :: t.followingSiblings s := by
  cases hp : t.parent n with
  | none => exact Or.inl ⟨(h.alone hp).2, (h.siblings_of_root hp).2⟩
  | some p =>
      obtain ⟨pre, post, hsplit⟩ := h.exists_split hp
      have hnext := (h.links hsplit).2
      have hrow := (h.siblings hsplit).2
      cases post with
      | nil => exact Or.inl ⟨hnext, hrow⟩
      | cons s post =>
          have hstep : t.children p = (pre ++ [n]) ++ s :: post := by
            rw [hsplit, List.append_assoc, List.singleton_append]
          refine Or.inr ⟨s, hnext, h.mem_children.mp (by simp [hsplit]), ?_⟩
          rw [hrow, (h.siblings hstep).2]

/-- Climbing finds the first subtree after the one that the walk leaves. -/
private theorem climb_spec (h : t.WellFormed) {root n : NodeId} {above : List NodeId}
    (hl : t.Leads root n above) :
    (climb t.view root n above = none ∧ t.after n above = []) ∨
      ∃ d, climb t.view root n above = some d ∧ d.root = root ∧ d.OnPath t ∧
        t.after n above = t.subtree d.node ++ t.after d.node d.above := by
  induction above generalizing n with
  | nil =>
      have hroot : n = root := hl
      subst hroot
      exact Or.inl ⟨by simp [climb], rfl⟩
  | cons p above ih =>
      have hne : n ≠ root := by
        intro hroot
        have hbelow := (Tree.below_iff_of_parent hl.1).mpr hl.2.eq_or_below
        exact h.not_below_self root (hroot ▸ hbelow)
      rcases next_spec_link h n with ⟨hnext, hrow⟩ | ⟨s, hnext, hparent, hrow⟩
      · have hclimb : climb t.view root n (p :: above) = climb t.view root p above := by
          have hview : t.view.next n = none := hnext
          rw [climb, if_neg hne, hview]
        rw [hclimb, Tree.after, hrow]
        exact ih hl.2
      · have hclimb : climb t.view root n (p :: above) =
            some { root, node := s, above := p :: above } := by
          have hview : t.view.next n = some s := hnext
          rw [climb, if_neg hne, hview]
        refine Or.inr ⟨_, hclimb, rfl, ⟨hparent.trans hl.1, hl.2⟩, ?_⟩
        simp only [Tree.after]
        rw [hrow, List.flatMap_cons, List.append_assoc]

/-- **One step of the walk** leads to the first node that remains, and keeps the path true. -/
theorem next_spec (h : t.WellFormed) {c : Cursor} (hc : c.OnPath t) :
    (c.next t.view = none ∧ c.remaining t = []) ∨
      ∃ d, c.next t.view = some d ∧ d.root = c.root ∧ d.OnPath t ∧
        c.remaining t = d.node :: d.remaining t := by
  cases hchildren : t.children c.node with
  | nil =>
      have hfirst : t.view.firstChild c.node = none := by
        change (t.children c.node).head? = none
        rw [hchildren, List.head?_nil]
      have hnext : c.next t.view = climb t.view c.root c.node c.above := by
        rw [next, hfirst]
      have hrest : c.remaining t = t.after c.node c.above := by
        simp [remaining, hchildren]
      rw [hnext, hrest]
      rcases climb_spec h hc with hend | ⟨d, hd, hroot, hpath, hafter⟩
      · exact Or.inl hend
      · refine Or.inr ⟨d, hd, hroot, hpath, ?_⟩
        rw [hafter, h.subtree_eq]
        rfl
  | cons a as =>
      have hfirst : t.view.firstChild c.node = some a := by
        change (t.children c.node).head? = some a
        rw [hchildren, List.head?_cons]
      have hnext : c.next t.view = some { c with node := a, above := c.node :: c.above } := by
        rw [next, hfirst]
      have hparent : t.parent a = some c.node := h.mem_children.mp (by simp [hchildren])
      have hsplit : t.children c.node = [] ++ a :: as := hchildren
      refine Or.inr ⟨_, hnext, rfl, ⟨hparent, hc⟩, ?_⟩
      simp only [remaining, hchildren, List.flatMap_cons, Tree.after, (h.siblings hsplit).2]
      rw [h.subtree_eq a]
      simp

/-- What is left of a walk is what stands behind the cursor, up to the bound. -/
theorem rest_eq_take (h : t.WellFormed) (bound : Nat) {c : Cursor} (hc : c.OnPath t) :
    c.rest t.view bound = (c.remaining t).take bound := by
  induction bound generalizing c with
  | zero => simp [rest]
  | succ bound ih =>
      rcases next_spec h hc with ⟨hnext, hrest⟩ | ⟨d, hnext, -, hpath, hrest⟩
      · simp [rest, hnext, hrest]
      · simp [rest, hnext, hrest, ih hpath]

/-! ### Going straight to a node -/

/-- From a node below the root, climbing meets the cursor's path and gives a true path; from any
other node it meets nothing. -/
private theorem meet_spec (h : t.WellFormed) {c : Cursor} (hc : c.OnPath t) (n : NodeId) :
    (¬ t.Below n c.root ∧ c.meet (t.ancestors n) = none) ∨
      ∃ above, t.Below n c.root ∧ c.meet (t.ancestors n) = some above ∧
        t.Leads c.root n above := by
  induction n using h.upward with
  | root n hp =>
      have hnot : ¬ t.Below n c.root := by
        rw [← h.mem_ancestors, h.ancestors_of_root hp]
        exact List.not_mem_nil
      exact Or.inl ⟨hnot, by rw [h.ancestors_of_root hp]; rfl⟩
  | child n p hp ih =>
      rw [h.ancestors_of_parent hp, meet]
      by_cases hnode : p = c.node
      · rw [if_pos hnode]
        have hleads : t.Leads c.root n (p :: c.above) := ⟨hp, hnode ▸ hc⟩
        exact Or.inr ⟨_, (Tree.below_iff_of_parent hp).mpr hleads.2.eq_or_below, rfl, hleads⟩
      · rw [if_neg hnode]
        by_cases habove : p ∈ c.above
        · rw [if_pos habove]
          obtain ⟨rest, hrest, hleads⟩ := Tree.Leads.suffix hc habove
          exact Or.inr ⟨_, (Tree.below_iff_of_parent hp).mpr hleads.eq_or_below, rfl,
            hrest ▸ ⟨hp, hleads⟩⟩
        · rw [if_neg habove]
          have hroot : p ≠ c.root := by
            rintro rfl
            cases hcase : c.above with
            | nil =>
                have hstart : t.Leads c.root c.node [] := hcase ▸ hc
                exact hnode hstart.symm
            | cons a as =>
                have hlong : t.Leads c.root c.node (a :: as) := hcase ▸ hc
                exact habove (hcase ▸ hlong.root_mem)
          rcases ih with ⟨hnot, hmeet⟩ | ⟨above, hbelow, hmeet, hleads⟩
          · refine Or.inl ⟨?_, by rw [hmeet]; rfl⟩
            rw [Tree.below_iff_of_parent hp]
            exact fun hor => hor.elim hroot hnot
          · exact Or.inr ⟨p :: above, (Tree.below_iff_of_parent hp).mpr (Or.inr hbelow),
              by rw [hmeet]; rfl, hp, hleads⟩

/-- **A cursor moves to every node at or below its root, and to no other**, and its path stays
true. -/
theorem moveTo_spec (h : t.WellFormed) {c : Cursor} (hc : c.OnPath t) (target : NodeId) :
    (¬ (target = c.root ∨ t.Below target c.root) ∧ c.moveTo t.view target = none) ∨
      ∃ d, (target = c.root ∨ t.Below target c.root) ∧ c.moveTo t.view target = some d ∧
        d.root = c.root ∧ d.node = target ∧ d.OnPath t := by
  unfold moveTo
  by_cases hnode : target = c.node
  · rw [if_pos hnode]
    exact Or.inr ⟨c, hnode ▸ Tree.Leads.eq_or_below hc, rfl, rfl, hnode.symm, hc⟩
  · rw [if_neg hnode]
    by_cases hroot : target = c.root
    · rw [if_pos hroot]
      exact Or.inr ⟨_, Or.inl hroot, rfl, rfl, hroot.symm, onPath_start c.root⟩
    · rw [if_neg hroot]
      change (_ ∧ (c.meet (t.ancestors target)).map _ = none) ∨
        ∃ d, _ ∧ (c.meet (t.ancestors target)).map _ = some d ∧ _
      rcases meet_spec h hc target with ⟨hnot, hmeet⟩ | ⟨above, hbelow, hmeet, hleads⟩
      · exact Or.inl ⟨fun hor => hor.elim hroot hnot, by rw [hmeet]; rfl⟩
      · rw [hmeet]
        exact Or.inr ⟨_, Or.inr hbelow, rfl, rfl, rfl, hleads⟩

end Cursor

namespace Tree

variable {t : Tree}

/-- **Both walks agree**: the walk with a cursor lists what the walk with a stack lists. -/
theorem WellFormed.view_descendants (h : t.WellFormed) (n : NodeId) :
    t.view.descendants n = t.descendants n := by
  have hremaining : (Cursor.start n).remaining t = (t.children n).flatMap t.subtree := by
    simp [Cursor.remaining, Cursor.start, after]
  change (Cursor.start n).rest t.view t.size = _
  rw [Cursor.rest_eq_take h _ (Cursor.onPath_start n), hremaining,
    List.take_of_length_le (h.length_below_le n), h.descendants_eq]

end Tree

end Selectors

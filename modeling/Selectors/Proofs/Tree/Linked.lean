import Selectors.Proofs.Tree.Change

/-!
# Consistent links

The parent of a node, the child lists and the two sibling links say the same thing three times.  A
tree is *linked* when they agree, and every change keeps it so, cycles or not.

* `Tree.Linked` is the agreement of the links.
* `Tree.relink_linked` restores it when the links in one child list are out of date.
* `Tree.removeChild_linked` and `Tree.insertBefore_linked` are the two steps that move nodes; what
  they do to parents and child lists stands beside them.
-/

namespace Selectors.Tree

/-- The links of a tree agree: a child list holds the nodes with that parent, each once, and the
sibling links of a node are its neighbours there. -/
structure Linked (t : Tree) : Prop where
  mem_children : ∀ {p c : NodeId}, c ∈ t.children p ↔ t.parent c = some p
  nodup : ∀ p, (t.children p).Nodup
  links : ∀ {p c : NodeId} {pre post : List NodeId}, t.children p = pre ++ c :: post →
    t.previous c = pre.getLast? ∧ t.next c = post.head?
  alone : ∀ {c : NodeId}, t.parent c = none → t.previous c = none ∧ t.next c = none

/-- The links agree, except perhaps for the sibling links in the child list of `p`. -/
structure LinkedBut (t : Tree) (p : NodeId) : Prop where
  mem_children : ∀ {q c : NodeId}, c ∈ t.children q ↔ t.parent c = some q
  nodup : ∀ q, (t.children q).Nodup
  links : ∀ {q c : NodeId} {pre post : List NodeId}, q ≠ p → t.children q = pre ++ c :: post →
    t.previous c = pre.getLast? ∧ t.next c = post.head?
  alone : ∀ {c : NodeId}, t.parent c = none → t.previous c = none ∧ t.next c = none

theorem Linked.lt_size {t : Tree} (h : t.Linked) {p c : NodeId} (hc : t.parent c = some p) :
    p < t.size :=
  lt_size_of_mem_children (h.mem_children.mpr hc)

/-- Relinking a child list changes siblings only. -/
theorem sameShape_relink (t : Tree) (p : NodeId) : SameShape t (t.relink p) :=
  sameShape_relinkFrom ..

/-- **Relinking repairs a child list.** -/
theorem relink_linked {t : Tree} {p : NodeId} (h : t.LinkedBut p) : (t.relink p).Linked := by
  have hshape := sameShape_relink t p
  have hother {m : NodeId} (hm : m ∉ t.children p) :
      (t.relink p).previous m = t.previous m ∧ (t.relink p).next m = t.next m :=
    links_relinkFrom_of_not_mem none t hm
  refine ⟨?_, ?_, ?_, ?_⟩
  · intro q c
    rw [hshape.children, hshape.parent]
    exact h.mem_children
  · intro q
    rw [hshape.children]
    exact h.nodup q
  · intro q c pre post hsplit
    rw [hshape.children] at hsplit
    have hcq : t.parent c = some q := h.mem_children.mp (by simp [hsplit])
    by_cases hq : q = p
    · subst hq
      have hlinks := links_relinkFrom none t (hsplit ▸ h.nodup q)
        (lt_size_of_parent hcq)
      rw [Option.or_none, ← hsplit] at hlinks
      exact hlinks
    · have hcp : c ∉ t.children p := by
        rw [h.mem_children, hcq]
        simpa using hq
      rw [(hother hcp).1, (hother hcp).2]
      exact h.links hq hsplit
  · intro c hc
    rw [hshape.parent] at hc
    have hcp : c ∉ t.children p := by
      rw [h.mem_children, hc]
      simp
    rw [(hother hcp).1, (hother hcp).2]
    exact h.alone hc

/-! ### Taking a child out -/

/-- A tree in which a child was taken out of its list and its links were cleared. -/
private def cut (t : Tree) (p c : NodeId) : Tree :=
  (t.modify p fun node => { node with children := node.children.erase c }).modify c
    fun node => { node with parent := none, previous := none, next := none }

private theorem size_cut (t : Tree) (p c : NodeId) : (t.cut p c).size = t.size := by
  simp [cut]

private theorem data?_cut (t : Tree) (p c : NodeId) : (t.cut p c).data? = t.data? := by
  funext m
  unfold cut
  rw [data?_modify, data?_modify, get?_modify]
  split <;> split <;> simp [data?, Function.comp_def]

/-- Cutting a child off takes it out of one child list. -/
private theorem children_cut (t : Tree) (p c q : NodeId) :
    (t.cut p c).children q = if q = p then (t.children p).erase c else t.children q := by
  unfold cut
  rw [children_modify, children_modify, get?_modify]
  by_cases hp : p = q
  · subst hp
    cases hget : t.get? p <;> simp [children, hget]
  · cases hget : t.get? q <;> simp [children, hget, hp, Ne.symm hp]

/-- A child that is cut off has no parent and no siblings, and no other node's links change. -/
private theorem links_cut (t : Tree) (p c m : NodeId) (hc : c < t.size) :
    (t.cut p c).parent m = (if m = c then none else t.parent m) ∧
      (t.cut p c).previous m = (if m = c then none else t.previous m) ∧
      (t.cut p c).next m = (if m = c then none else t.next m) := by
  obtain ⟨node, hnode⟩ := get?_isSome hc
  unfold cut
  rw [parent_modify, parent_modify, previous_modify, previous_modify, next_modify, next_modify,
    get?_modify]
  by_cases hm : c = m
  · subst hm
    by_cases hp : p = c <;> simp [hnode, hp]
  · by_cases hp : p = m
    · subst hp
      cases hget : t.get? p <;> simp [parent, previous, next, hget, hm, Ne.symm hm]
    · simp [hp, hm, Ne.symm hm]

/-- With a child cut off, only the siblings in the old child list are out of date. -/
private theorem cut_linkedBut {t : Tree} (h : t.Linked) {p c : NodeId}
    (hc : c ∈ t.children p) : (t.cut p c).LinkedBut p := by
  have hcp : t.parent c = some p := h.mem_children.mp hc
  have hlinks := fun m => links_cut t p c m (lt_size_of_parent hcp)
  refine ⟨?_, ?_, ?_, ?_⟩
  · intro q m
    rw [children_cut, (hlinks m).1]
    by_cases hq : q = p
    · subst hq
      by_cases hm : m = c
      · simp [hm, (h.nodup q).mem_erase_iff]
      · simp [hm, (h.nodup q).mem_erase_iff, h.mem_children]
    · by_cases hm : m = c
      · subst hm
        simp [hq, h.mem_children, hcp, Ne.symm hq]
      · simp [hq, hm, h.mem_children]
  · intro q
    rw [children_cut]
    split
    · exact (h.nodup p).erase c
    · exact h.nodup q
  · intro q m pre post hq hsplit
    rw [children_cut, if_neg hq] at hsplit
    have hm : m ≠ c := by
      intro hm
      have hmq : t.parent m = some q := h.mem_children.mp (by simp [hsplit])
      rw [hm, hcp] at hmq
      exact hq (Option.some.inj hmq).symm
    rw [(hlinks m).2.1, (hlinks m).2.2, if_neg hm, if_neg hm]
    exact h.links hsplit
  · intro m hm
    rw [(hlinks m).1] at hm
    rw [(hlinks m).2.1, (hlinks m).2.2]
    split
    · exact ⟨rfl, rfl⟩
    · next hne => exact h.alone (by simpa [hne] using hm)

/-- Removing a child is cutting it off and relinking those that stay. -/
private theorem removeChild_eq {t : Tree} {p c : NodeId} (hc : c ∈ t.children p) :
    t.removeChild p c = (t.cut p c).relink p := by
  simp [removeChild, hc, cut]

/-- Removing a node that is no child changes nothing. -/
theorem removeChild_of_not_mem {t : Tree} {p c : NodeId} (hc : c ∉ t.children p) :
    t.removeChild p c = t := by
  simp [removeChild, hc]

@[simp] theorem size_removeChild (t : Tree) (p c : NodeId) :
    (t.removeChild p c).size = t.size := by
  by_cases hc : c ∈ t.children p
  · rw [removeChild_eq hc, (sameShape_relink ..).size, size_cut]
  · rw [removeChild_of_not_mem hc]

@[simp] theorem data?_removeChild (t : Tree) (p c : NodeId) :
    (t.removeChild p c).data? = t.data? := by
  by_cases hc : c ∈ t.children p
  · rw [removeChild_eq hc, (sameShape_relink ..).data, data?_cut]
  · rw [removeChild_of_not_mem hc]

/-- **Removing a child keeps the links consistent.** -/
theorem removeChild_linked {t : Tree} (h : t.Linked) (p c : NodeId) :
    (t.removeChild p c).Linked := by
  by_cases hc : c ∈ t.children p
  · rw [removeChild_eq hc]
    exact relink_linked (cut_linkedBut h hc)
  · rw [removeChild_of_not_mem hc]
    exact h

/-- A removed child has no parent, and no other node loses its own. -/
theorem parent_removeChild {t : Tree} (h : t.Linked) {p c : NodeId} (hc : c ∈ t.children p)
    (m : NodeId) : (t.removeChild p c).parent m = if m = c then none else t.parent m := by
  rw [removeChild_eq hc, (sameShape_relink ..).parent]
  exact (links_cut t p c m (lt_size_of_parent (h.mem_children.mp hc))).1

/-- Removing a child takes it out of one child list. -/
theorem children_removeChild (t : Tree) (p c q : NodeId) :
    (t.removeChild p c).children q =
      if q = p then (t.children p).erase c else t.children q := by
  by_cases hc : c ∈ t.children p
  · rw [removeChild_eq hc, (sameShape_relink ..).children, children_cut]
  · rw [removeChild_of_not_mem hc]
    split
    · next hq => rw [hq, List.erase_of_not_mem hc]
    · rfl

/-! ### Putting a child in -/

/-- Placing a child before another adds it and loses none. -/
theorem placeBefore_perm (c r : NodeId) (cs : List NodeId) :
    (placeBefore c r cs).Perm (c :: cs) := by
  induction cs with
  | nil => exact List.Perm.refl _
  | cons a cs ih =>
      unfold placeBefore
      split
      · exact List.Perm.refl _
      · exact (ih.cons a).trans (List.Perm.swap c a cs)

/-- A child list with a new child before a reference, or at the end. -/
def placed (c : NodeId) (reference : Option NodeId) (cs : List NodeId) : List NodeId :=
  match reference with
  | some r => placeBefore c r cs
  | none => cs ++ [c]

/-- Placing a child, before another or last, adds it and loses none. -/
theorem placed_perm (c : NodeId) (reference : Option NodeId) (cs : List NodeId) :
    (placed c reference cs).Perm (c :: cs) := by
  cases reference with
  | none => exact List.perm_append_singleton c cs
  | some r => exact placeBefore_perm c r cs

/-- A tree in which a node without a parent was put into a child list. -/
private def plant (t : Tree) (p c : NodeId) (reference : Option NodeId) : Tree :=
  (t.modify p fun node => { node with children := placed c reference node.children }).modify c
    fun node => { node with parent := some p }

private theorem size_plant (t : Tree) (p c : NodeId) (reference : Option NodeId) :
    (t.plant p c reference).size = t.size := by
  simp [plant]

private theorem data?_plant (t : Tree) (p c : NodeId) (reference : Option NodeId) :
    (t.plant p c reference).data? = t.data? := by
  funext m
  unfold plant
  rw [data?_modify, data?_modify, get?_modify]
  split <;> split <;> simp [data?, Function.comp_def]

/-- Planting a child puts it into one child list. -/
private theorem children_plant (t : Tree) {p : NodeId} (hp : p < t.size) (c q : NodeId)
    (reference : Option NodeId) : (t.plant p c reference).children q =
      if q = p then placed c reference (t.children p) else t.children q := by
  obtain ⟨node, hnode⟩ := get?_isSome hp
  unfold plant
  rw [children_modify, children_modify, get?_modify]
  by_cases hq : p = q
  · subst hq
    by_cases hc : c = p <;> simp [children, hnode, hc]
  · cases hget : t.get? q <;> simp [children, hget, hq, Ne.symm hq]

/-- A planted child has its new parent, and no other link changes. -/
private theorem links_plant (t : Tree) (p : NodeId) {c : NodeId} (hc : c < t.size)
    (reference : Option NodeId) (m : NodeId) :
    (t.plant p c reference).parent m = (if m = c then some p else t.parent m) ∧
      (t.plant p c reference).previous m = t.previous m ∧
      (t.plant p c reference).next m = t.next m := by
  obtain ⟨node, hnode⟩ := get?_isSome hc
  unfold plant
  rw [parent_modify, parent_modify, previous_modify, previous_modify, next_modify, next_modify,
    get?_modify]
  by_cases hm : c = m
  · subst hm
    by_cases hp : p = c <;> simp [hnode, hp, previous, next]
  · by_cases hp : p = m
    · subst hp
      cases hget : t.get? p <;> simp [parent, previous, next, hget, hm, Ne.symm hm]
    · simp [hp, hm, Ne.symm hm]

/-- With a free node planted, only the siblings in the new child list are out of date. -/
private theorem plant_linkedBut {t : Tree} (h : t.Linked) {p c : NodeId} (hp : p < t.size)
    (hc : c < t.size) (hfree : t.parent c = none) (reference : Option NodeId) :
    (t.plant p c reference).LinkedBut p := by
  have hlinks := links_plant t p hc reference
  have hnot : ∀ q, c ∉ t.children q := by
    intro q
    rw [h.mem_children, hfree]
    simp
  refine ⟨?_, ?_, ?_, ?_⟩
  · intro q m
    rw [children_plant t hp, (hlinks m).1]
    by_cases hq : q = p
    · subst hq
      by_cases hm : m = c <;> simp [hm, (placed_perm ..).mem_iff, h.mem_children]
    · by_cases hm : m = c
      · subst hm
        simp [hq, hnot q, Ne.symm hq]
      · simp [hq, hm, h.mem_children]
  · intro q
    rw [children_plant t hp]
    split
    · rw [(placed_perm ..).nodup_iff]
      exact List.nodup_cons.mpr ⟨hnot p, h.nodup p⟩
    · exact h.nodup q
  · intro q m pre post hq hsplit
    rw [children_plant t hp, if_neg hq] at hsplit
    rw [(hlinks m).2.1, (hlinks m).2.2]
    exact h.links hsplit
  · intro m hm
    rw [(hlinks m).1] at hm
    rw [(hlinks m).2.1, (hlinks m).2.2]
    split at hm
    · cases hm
    · exact h.alone hm

/-- Inserting a child is detaching it, planting it and relinking its siblings. -/
private theorem insertBefore_eq (t : Tree) (p c : NodeId) (reference : Option NodeId) :
    t.insertBefore p c reference = ((t.detach c).plant p c reference).relink p := by
  cases reference <;> rfl

@[simp] theorem size_detach (t : Tree) (c : NodeId) : (t.detach c).size = t.size := by
  unfold detach
  split <;> simp

@[simp] theorem data?_detach (t : Tree) (c : NodeId) : (t.detach c).data? = t.data? := by
  unfold detach
  split <;> simp

/-- Detaching a node keeps a tree linked. -/
theorem detach_linked {t : Tree} (h : t.Linked) (c : NodeId) : (t.detach c).Linked := by
  unfold detach
  split
  · exact removeChild_linked h ..
  · exact h

/-- A detached node has no parent, and no other node loses its own. -/
theorem parent_detach {t : Tree} (h : t.Linked) (c m : NodeId) :
    (t.detach c).parent m = if m = c then none else t.parent m := by
  unfold detach
  split
  · next old hold => exact parent_removeChild h (h.mem_children.mpr hold) m
  · next hnone =>
      split
      · next hm => rw [hm, hnone]
      · rfl

/-- Detaching a node takes it out of every child list. -/
theorem children_detach {t : Tree} (h : t.Linked) (c q : NodeId) :
    (t.detach c).children q = (t.children q).erase c := by
  unfold detach
  split
  · next old hold =>
      rw [children_removeChild]
      split
      · next hq => rw [hq]
      · next hq =>
          have hc : c ∉ t.children q := by
            rw [h.mem_children, hold]
            simpa using Ne.symm hq
          rw [List.erase_of_not_mem hc]
  · next hnone =>
      have hc : c ∉ t.children q := by
        rw [h.mem_children, hnone]
        simp
      rw [List.erase_of_not_mem hc]

@[simp] theorem size_insertBefore (t : Tree) (p c : NodeId) (reference : Option NodeId) :
    (t.insertBefore p c reference).size = t.size := by
  rw [insertBefore_eq, (sameShape_relink ..).size, size_plant, size_detach]

@[simp] theorem data?_insertBefore (t : Tree) (p c : NodeId) (reference : Option NodeId) :
    (t.insertBefore p c reference).data? = t.data? := by
  rw [insertBefore_eq, (sameShape_relink ..).data, data?_plant, data?_detach]

/-- **Inserting a child keeps the links consistent**, wherever the child came from and even where
it goes below itself. -/
theorem insertBefore_linked {t : Tree} (h : t.Linked) {p c : NodeId} (hp : p < t.size)
    (hc : c < t.size) (reference : Option NodeId) :
    (t.insertBefore p c reference).Linked := by
  rw [insertBefore_eq]
  refine relink_linked (plant_linkedBut (detach_linked h c) ?_ ?_ ?_ reference)
  · rwa [size_detach]
  · rwa [size_detach]
  · rw [parent_detach h, if_pos rfl]

/-- An inserted child has its new parent, and all others keep theirs. -/
theorem parent_insertBefore {t : Tree} (h : t.Linked) (p : NodeId) {c : NodeId}
    (hc : c < t.size) (reference : Option NodeId) (m : NodeId) :
    (t.insertBefore p c reference).parent m = if m = c then some p else t.parent m := by
  rw [insertBefore_eq, (sameShape_relink ..).parent,
    (links_plant (t.detach c) p (by rwa [size_detach]) reference m).1, parent_detach h]
  split <;> rfl

/-- The child leaves its old place first, and the reference is looked up after that. -/
theorem children_insertBefore {t : Tree} (h : t.Linked) {p : NodeId} (hp : p < t.size)
    (c : NodeId) (reference : Option NodeId) (q : NodeId) :
    (t.insertBefore p c reference).children q =
      if q = p then placed c reference ((t.children p).erase c) else (t.children q).erase c := by
  rw [insertBefore_eq, (sameShape_relink ..).children,
    children_plant (t.detach c) (by rwa [size_detach]), children_detach h, children_detach h]

end Selectors.Tree

import Selectors.Proofs.Tree.WellFormed
import Selectors.View

/-!
# Up and sideways

In a well-formed tree the bound on a walk is never reached: the walk to the root and the walks along
a row of siblings are complete, and so they can be read off the parent and the child lists.

* `follow_eq_of_ranked`: a walk along a falling rank is not cut off.
* `Tree.Below` is the relation that `Tree.ancestors` lists.
* `Tree.Linked.siblings`: the siblings of a node are what stands around it in its child list.
* `Tree.WellFormed.upward` and `Tree.WellFormed.downward` are induction along the tree.
-/

namespace Selectors

theorem length_le_of_nodup_lt {ns : List Nat} {bound : Nat} (hnd : ns.Nodup)
    (hlt : ∀ n ∈ ns, n < bound) : ns.length ≤ bound := by
  have hsub : ns ⊆ List.range bound := fun n hn => List.mem_range.mpr (hlt n hn)
  simpa using hnd.length_le_of_subset hsub

/-- A rank that falls with each step falls along a row of steps. -/
theorem rank_lt_of_transGen {R : NodeId → NodeId → Prop} {rank : NodeId → Nat}
    {n m : NodeId} (h : Relation.TransGen R n m) (hrank : ∀ {n m}, R n m → rank m < rank n) :
    rank m < rank n := by
  induction h with
  | single h => exact hrank h
  | tail _ h ih => exact Nat.lt_trans (hrank h) ih

/-! ### Walks along a link -/

section follow

variable {link : NodeId → Option NodeId} {rank : NodeId → Nat}

/-- What a walk comes to has a smaller rank than where it began. -/
theorem rank_lt_of_mem_follow (hrank : ∀ {n m}, link n = some m → rank m < rank n)
    {bound : Nat} {n m : NodeId} (hm : m ∈ follow link bound n) : rank m < rank n := by
  induction bound generalizing n with
  | zero => simp [follow] at hm
  | succ bound ih =>
      unfold follow at hm
      split at hm
      · next a ha =>
          rcases List.mem_cons.mp hm with rfl | hm
          · exact hrank ha
          · exact Nat.lt_trans (ih hm) (hrank ha)
      · cases hm

/-- A walk along a falling rank comes to no node twice. -/
private theorem nodup_follow (hrank : ∀ {n m}, link n = some m → rank m < rank n)
    (bound : Nat) (n : NodeId) : (follow link bound n).Nodup := by
  induction bound generalizing n with
  | zero => exact List.nodup_nil
  | succ bound ih =>
      unfold follow
      split
      · next a ha =>
          refine List.nodup_cons.mpr ⟨?_, ih a⟩
          intro hmem
          exact Nat.lt_irrefl _ (rank_lt_of_mem_follow hrank hmem)
      · exact List.nodup_nil

/-- A walk is its first step and the walk from there. -/
private theorem follow_cons (bound : Nat) (n : NodeId) :
    follow link (bound + 1) n = (link n).elim [] fun m => m :: follow link bound m := by
  rw [follow]
  cases link n <;> rfl

/-- A walk that ends below its bound ends the same way under the next smaller bound. -/
private theorem follow_succ {bound : Nat} {n : NodeId}
    (h : (follow link (bound + 1) n).length ≤ bound) :
    follow link (bound + 1) n = follow link bound n := by
  induction bound generalizing n with
  | zero => exact List.length_eq_zero_iff.mp (Nat.le_zero.mp h)
  | succ bound ih =>
      rw [follow_cons] at h
      rw [follow_cons, follow_cons bound]
      cases hlink : link n with
      | none => rfl
      | some a =>
          simp only [hlink, Option.elim_some, List.length_cons] at h
          exact congrArg (a :: ·) (ih (by omega))

/-- **A ranked walk is complete.**  When a rank falls along a link whose targets are in the store,
the size of the store is bound enough for the whole walk. -/
theorem follow_eq_of_ranked (hrank : ∀ {n m}, link n = some m → rank m < rank n) {size : Nat}
    (hlt : ∀ {n m}, link n = some m → m < size) (n : NodeId) :
    follow link size n = (link n).elim [] fun m => m :: follow link size m := by
  have hmem : ∀ bound n, ∀ m ∈ follow link bound n, m < size := by
    intro bound
    induction bound with
    | zero => intro n m hm; simp [follow] at hm
    | succ bound ih =>
        intro n m hm
        unfold follow at hm
        split at hm
        · next a ha =>
            rcases List.mem_cons.mp hm with rfl | hm
            · exact hlt ha
            · exact ih a m hm
        · cases hm
  have hlength : (follow link (size + 1) n).length ≤ size :=
    length_le_of_nodup_lt (nodup_follow hrank _ n) (hmem _ n)
  rw [← follow_succ hlength, follow_cons]

/-- A ranked walk visits what repeating the link leads to. -/
theorem mem_follow_iff_of_ranked (hrank : ∀ {n m}, link n = some m → rank m < rank n) {size : Nat}
    (hlt : ∀ {n m}, link n = some m → m < size) {n m : NodeId} :
    m ∈ follow link size n ↔ Relation.TransGen (fun a b => link a = some b) n m := by
  induction hr : rank n using Nat.strongRecOn generalizing n with
  | ind r ih =>
      rw [follow_eq_of_ranked hrank hlt, Relation.TransGen.head'_iff]
      cases hlink : link n with
      | none => simp
      | some a =>
          have hnext := ih (rank a) (hr ▸ hrank hlink) rfl
          simp only [Option.elim_some, List.mem_cons, Option.some.injEq, hnext,
            exists_eq_left']
          rw [Relation.reflTransGen_iff_eq_or_transGen]

end follow

namespace Tree

variable {t : Tree}

/-! ### Ancestors -/

/-- `n` stands below `top` in its own tree. -/
def Below (t : Tree) (n top : NodeId) : Prop :=
  Relation.TransGen (fun a b => t.parent a = some b) n top

/-- The ancestors of a node are its parent and the ancestors of that. -/
theorem WellFormed.ancestors_eq (h : t.WellFormed) (n : NodeId) :
    t.ancestors n = (t.parent n).elim [] fun p => p :: t.ancestors p := by
  obtain ⟨rank, hrank⟩ := h.ranked
  exact follow_eq_of_ranked (fun hp => hrank (Or.inl hp)) h.lt_size n

/-- The ancestors of a child. -/
theorem WellFormed.ancestors_of_parent (h : t.WellFormed) {n p : NodeId}
    (hp : t.parent n = some p) : t.ancestors n = p :: t.ancestors p := by
  rw [h.ancestors_eq, hp]
  rfl

/-- A root has no ancestors. -/
theorem WellFormed.ancestors_of_root (h : t.WellFormed) {n : NodeId} (hp : t.parent n = none) :
    t.ancestors n = [] := by
  rw [h.ancestors_eq, hp]
  rfl

/-- Induction from the roots down to the leaves. -/
theorem WellFormed.upward (h : t.WellFormed) {motive : NodeId → Prop}
    (root : ∀ n, t.parent n = none → motive n)
    (child : ∀ n p, t.parent n = some p → motive p → motive n) (n : NodeId) : motive n := by
  obtain ⟨rank, hrank⟩ := h.ranked
  induction hr : rank n using Nat.strongRecOn generalizing n with
  | ind r ih =>
      cases hp : t.parent n with
      | none => exact root n hp
      | some p => exact child n p hp (ih (rank p) (hr ▸ hrank (Or.inl hp)) p rfl)

/-- **Ancestors**: the walk up lists what the node stands below. -/
theorem WellFormed.mem_ancestors (h : t.WellFormed) {n a : NodeId} :
    a ∈ t.ancestors n ↔ t.Below n a := by
  obtain ⟨rank, hrank⟩ := h.ranked
  exact mem_follow_iff_of_ranked (fun hp => hrank (Or.inl hp)) h.lt_size

/-- A node and its ancestors are all different. -/
theorem WellFormed.nodup_ancestors (h : t.WellFormed) (n : NodeId) :
    (n :: t.ancestors n).Nodup := by
  obtain ⟨rank, hrank⟩ := h.ranked
  have hup : ∀ {n m}, t.parent n = some m → rank m < rank n := fun hp => hrank (Or.inl hp)
  refine List.nodup_cons.mpr ⟨?_, nodup_follow hup _ n⟩
  intro hmem
  exact Nat.lt_irrefl _ (rank_lt_of_mem_follow hup hmem)

theorem Below.lt_size {n a : NodeId} (hna : t.Below n a) : n < t.size := by
  obtain ⟨p, hp, -⟩ := Relation.TransGen.head'_iff.mp hna
  exact lt_size_of_parent hp

/-- Nothing stands below itself. -/
theorem WellFormed.not_below_self (h : t.WellFormed) (n : NodeId) : ¬ t.Below n n := by
  rw [← h.mem_ancestors]
  exact (List.nodup_cons.mp (h.nodup_ancestors n)).1

/-- What stands below a child stands below the parent, and conversely below it or below one of its
children. -/
theorem below_iff_exists_child {n a : NodeId} :
    t.Below n a ↔ ∃ c, t.parent c = some a ∧ (n = c ∨ t.Below n c) := by
  unfold Below
  rw [Relation.TransGen.tail'_iff]
  constructor
  · rintro ⟨c, hnc, hc⟩
    refine ⟨c, hc, ?_⟩
    rcases Relation.reflTransGen_iff_eq_or_transGen.mp hnc with hcn | hbelow
    · exact Or.inl hcn.symm
    · exact Or.inr hbelow
  · rintro ⟨c, hc, rfl | hbelow⟩
    · exact ⟨n, Relation.ReflTransGen.refl, hc⟩
    · exact ⟨c, hbelow.to_reflTransGen, hc⟩

/-- A node with a parent stands below `a` when its parent is `a` or stands below `a`. -/
theorem below_iff_of_parent {n p a : NodeId} (hp : t.parent n = some p) :
    t.Below n a ↔ p = a ∨ t.Below p a := by
  unfold Below
  rw [Relation.TransGen.head'_iff]
  constructor
  · rintro ⟨q, hq, hqa⟩
    obtain rfl : p = q := Option.some.inj (hp.symm.trans hq)
    rcases Relation.reflTransGen_iff_eq_or_transGen.mp hqa with rfl | hbelow
    · exact Or.inl rfl
    · exact Or.inr hbelow
  · rintro (rfl | hbelow)
    · exact ⟨p, hp, Relation.ReflTransGen.refl⟩
    · exact ⟨p, hp, hbelow.to_reflTransGen⟩

/-! ### Through hosts -/

/-- The way to the parent or the host goes along links. -/
theorem hangsFrom_of_hostingParent {n m : NodeId} (hm : t.view.hostingParent n = some m) :
    Relation.TransGen t.HangsFrom n m := by
  unfold TreeView.hostingParent at hm
  cases hp : t.view.parent n with
  | none =>
      rw [hp] at hm
      dsimp only at hm
      split at hm
      · exact .single (Or.inr hm)
      · cases hm
  | some p =>
      rw [hp] at hm
      dsimp only at hm
      split at hm
      · exact .head (Or.inl hp) (.single (Or.inr hm))
      · exact .single (Or.inl (hp.trans hm))

/-- The walk through hosts is complete too. -/
theorem WellFormed.mem_hostingAncestors (h : t.WellFormed) {n m : NodeId} :
    m ∈ t.view.hostingAncestors n ↔
      Relation.ReflTransGen (fun a b => t.view.hostingParent a = some b) n m := by
  obtain ⟨rank, hrank⟩ := h.ranked
  have hlt : ∀ {a b}, t.view.hostingParent a = some b → b < t.size := by
    intro a b hab
    obtain ⟨c, -, hcb⟩ := Relation.TransGen.tail'_iff.mp (hangsFrom_of_hostingParent hab)
    exact h.hangsFrom_lt hcb
  rw [TreeView.hostingAncestors, List.mem_cons, Relation.reflTransGen_iff_eq_or_transGen]
  exact or_congr_right (mem_follow_iff_of_ranked
    (fun hab => rank_lt_of_transGen (hangsFrom_of_hostingParent hab) hrank) hlt)

/-! ### Depth -/

/-- The number of nodes above a node. -/
def depth (t : Tree) (n : NodeId) : Nat :=
  (t.ancestors n).length

/-- A child is one deeper than its parent. -/
theorem WellFormed.depth_of_parent (h : t.WellFormed) {n p : NodeId} (hp : t.parent n = some p) :
    t.depth n = t.depth p + 1 := by
  simp [depth, h.ancestors_of_parent hp]

/-- No node is deeper than there are nodes. -/
theorem WellFormed.depth_le (h : t.WellFormed) (n : NodeId) : t.depth n ≤ t.size := by
  refine length_le_of_nodup_lt (List.nodup_cons.mp (h.nodup_ancestors n)).2 ?_
  intro a ha
  obtain ⟨c, hc, -⟩ := below_iff_exists_child.mp (h.mem_ancestors.mp ha)
  exact h.lt_size hc

/-- Induction from the leaves up to the roots. -/
theorem WellFormed.downward (h : t.WellFormed) {motive : NodeId → Prop}
    (node : ∀ n, (∀ c ∈ t.children n, motive c) → motive n) (n : NodeId) : motive n := by
  induction hr : t.size - t.depth n using Nat.strongRecOn generalizing n with
  | ind r ih =>
      refine node n ?_
      intro c hc
      have hdepth := h.depth_of_parent (h.mem_children.mp hc)
      have hle := h.depth_le c
      exact ih (t.size - t.depth c) (by omega) c rfl

/-! ### The root of a tree -/

/-- A child is in the tree of its parent. -/
theorem WellFormed.rootOf_of_parent (h : t.WellFormed) {n p : NodeId}
    (hp : t.parent n = some p) : t.rootOf n = t.rootOf p := by
  unfold rootOf
  rw [h.ancestors_of_parent hp]
  cases t.ancestors p with
  | nil => rfl
  | cons a as => simp [List.getLast?_cons]

/-- A root is the root of its own tree. -/
theorem WellFormed.rootOf_of_root (h : t.WellFormed) {n : NodeId} (hp : t.parent n = none) :
    t.rootOf n = n := by
  simp [rootOf, h.ancestors_of_root hp]

/-- The root of a tree has no parent. -/
theorem WellFormed.parent_rootOf (h : t.WellFormed) (n : NodeId) :
    t.parent (t.rootOf n) = none := by
  induction n using h.upward with
  | root n hp => rwa [h.rootOf_of_root hp]
  | child n p hp ih => rwa [h.rootOf_of_parent hp]

/-- A node is the root of its tree, or it stands below it. -/
theorem WellFormed.eq_rootOf_or_below (h : t.WellFormed) (n : NodeId) :
    n = t.rootOf n ∨ t.Below n (t.rootOf n) := by
  induction n using h.upward with
  | root n hp => exact Or.inl (h.rootOf_of_root hp).symm
  | child n p hp ih =>
      rw [h.rootOf_of_parent hp, below_iff_of_parent hp]
      exact Or.inr ih

/-- What stands below a node is in the tree of that node. -/
theorem WellFormed.rootOf_of_below (h : t.WellFormed) {n a : NodeId} (hna : t.Below n a) :
    t.rootOf n = t.rootOf a := by
  induction hna using Relation.TransGen.head_induction_on with
  | single hp => exact h.rootOf_of_parent hp
  | head hp _ ih => exact (h.rootOf_of_parent hp).trans ih

/-! ### Siblings -/

/-- A walk along links that follow a row takes the row, up to the bound. -/
private theorem follow_eq_take {link : NodeId → Option NodeId} {n : NodeId}
    {row : List NodeId} (hlink : ∀ pre c post, n :: row = pre ++ c :: post →
      link c = post.head?) (bound : Nat) : follow link bound n = row.take bound := by
  induction bound generalizing n row with
  | zero => simp [follow]
  | succ bound ih =>
      have hn := hlink [] n row rfl
      unfold follow
      cases row with
      | nil => simp [hn]
      | cons a row =>
          simp only [hn, List.head?_cons, List.take_succ_cons, List.cons.injEq, true_and]
          refine ih ?_
          intro pre c post hsplit
          exact hlink (n :: pre) c post (by rw [hsplit]; rfl)

/-- No node has more children than there are nodes. -/
theorem Linked.length_children_le (h : t.Linked) (p : NodeId) :
    (t.children p).length ≤ t.size := by
  refine length_le_of_nodup_lt (h.nodup p) ?_
  intro c hc
  exact lt_size_of_parent (h.mem_children.mp hc)

/-- **Siblings are neighbours in the child list**: those before a node, the nearest first, and those
after it. -/
theorem Linked.siblings (h : t.Linked) {p c : NodeId} {pre post : List NodeId}
    (hsplit : t.children p = pre ++ c :: post) :
    t.precedingSiblings c = pre.reverse ∧ t.followingSiblings c = post := by
  have hle : pre.length + post.length < t.size := by
    have := h.length_children_le p
    simp only [hsplit, List.length_append, List.length_cons] at this
    omega
  constructor
  · have hback : ∀ before a after, c :: pre.reverse = before ++ a :: after →
        t.previous a = after.head? := by
      intro before a after heq
      have hchildren : t.children p = after.reverse ++ a :: (before.reverse ++ post) := by
        have hrev : pre ++ [c] = after.reverse ++ a :: before.reverse := by
          simpa using congrArg List.reverse heq
        rw [hsplit, ← List.singleton_append, ← List.append_assoc, hrev]
        simp
      rw [(h.links hchildren).1, List.getLast?_reverse]
    unfold precedingSiblings
    rw [follow_eq_take hback, List.take_of_length_le]
    simpa using Nat.le_of_lt (Nat.lt_of_le_of_lt (Nat.le_add_right ..) hle)
  · have hforth : ∀ before a after, c :: post = before ++ a :: after →
        t.next a = after.head? := by
      intro before a after heq
      have hchildren : t.children p = (pre ++ before) ++ a :: after := by
        rw [hsplit, heq, List.append_assoc]
      exact (h.links hchildren).2
    unfold followingSiblings
    rw [follow_eq_take hforth, List.take_of_length_le]
    exact Nat.le_of_lt (Nat.lt_of_le_of_lt (Nat.le_add_left ..) hle)

/-- A child divides the child list of its parent. -/
theorem Linked.exists_split (h : t.Linked) {p c : NodeId} (hc : t.parent c = some p) :
    ∃ pre post, t.children p = pre ++ c :: post :=
  List.append_of_mem (h.mem_children.mpr hc)

/-- A root has no siblings. -/
theorem Linked.siblings_of_root (h : t.Linked) {c : NodeId} (hc : t.parent c = none) :
    t.precedingSiblings c = [] ∧ t.followingSiblings c = [] := by
  obtain ⟨hprevious, hnext⟩ := h.alone hc
  unfold precedingSiblings followingSiblings
  cases t.size with
  | zero => exact ⟨rfl, rfl⟩
  | succ size => simp [follow, hprevious, hnext]

/-- Reading the children off the first child and the links after it gives the child list. -/
theorem Linked.view_children (h : t.Linked) (p : NodeId) : t.view.children p = t.children p := by
  change (t.children p).head?.elim [] (fun c => c :: t.followingSiblings c) = t.children p
  cases hchildren : t.children p with
  | nil => rfl
  | cons c post =>
      have hsplit : t.children p = [] ++ c :: post := hchildren
      simp [(h.siblings hsplit).2]

/-- The element children of a node are the elements that have it as their parent. -/
theorem Linked.mem_elementChildren (h : t.Linked) {p c : NodeId} :
    c ∈ t.view.elementChildren p ↔ t.parent c = some p ∧ t.view.isElement c = true := by
  rw [TreeView.elementChildren, h.view_children, List.mem_filter, h.mem_children]

/-- The element children stand in the order of the child list. -/
theorem Linked.elementChildren_sublist (h : t.Linked) (p : NodeId) :
    (t.view.elementChildren p).Sublist (t.children p) := by
  rw [TreeView.elementChildren, h.view_children]
  exact List.filter_sublist

end Tree

end Selectors

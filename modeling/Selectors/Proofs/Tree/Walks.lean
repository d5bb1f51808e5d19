import Selectors.Proofs.Tree.Acyclic

/-!
# Walks with a cursor

A walk may be made with a stack of nodes, or with a cursor that goes from node to node by links and
turns back along its own path.  Both list a subtree in the same order, and both end.  All along the
cursor's path is the chain of nodes from its own up to the root of the walk, and since there is only
one such chain, a cursor does not remember how it came to its node: after any steps and moves it is
the cursor that a fresh walk has there.

* `Cursor.Visits` are the cursors of a walk up to its end, and `Cursor.exists_visits` finds them.
* `Cursor.OnPath.unique` says that node and root determine a cursor whose path is true.
* `Tree.WalksAgree` collects what holds of the walks from a node, and `Tree.walksAgree_of_built`
  says that it holds in every store without cycles.
* `Cursor.Reached` are the cursors that steps and moves lead to, and
  `Cursor.moveTo_eq_some_iff_reaches` says that a move leads to where a fresh walk comes by.
-/

namespace Selectors

namespace Cursor

/-- The cursors that a walk comes to after `c`, up to its end. -/
def Visits (v : TreeView) : Cursor → List Cursor → Prop
  | c, [] => c.next v = none
  | c, d :: ds => c.next v = some d ∧ Visits v d ds

/-- A walk that is at `c` comes to `d`. -/
def Reaches (v : TreeView) : Cursor → Cursor → Prop :=
  Relation.ReflTransGen fun c d => c.next v = some d

/-- The cursors that steps and moves lead to from the root of a walk. -/
inductive Reached (v : TreeView) (root : NodeId) : Cursor → Prop
  | start : Reached v root (start root)
  | next {c d : Cursor} (reached : Reached v root c) (step : c.next v = some d) : Reached v root d
  | moveTo {c d : Cursor} (reached : Reached v root c) (target : NodeId)
    (step : c.moveTo v target = some d) : Reached v root d

variable {t : Tree} {v : TreeView} {c d : Cursor} {root n target : NodeId}

/-- What a walk visits is reached by its steps. -/
theorem Visits.reaches {ds : List Cursor} (hvisits : Visits v c ds) (hd : d ∈ ds) :
    Reaches v c d := by
  induction ds generalizing c with
  | nil => cases hd
  | cons e ds ih =>
      obtain ⟨hstep, hrest⟩ := hvisits
      rcases List.mem_cons.mp hd with rfl | hd
      · exact Relation.ReflTransGen.single hstep
      · exact Relation.ReflTransGen.head hstep (ih hrest hd)

end Cursor

/-! ### Paths -/

namespace Tree

variable {t : Tree} {root n : NodeId} {above : List NodeId}

/-- **A path to the root is the chain of ancestors**, as far as the root. -/
theorem Leads.ancestors_eq (h : t.WellFormed) (hl : t.Leads root n above) :
    t.ancestors n = above ++ t.ancestors root := by
  induction above generalizing n with
  | nil =>
      have hroot : n = root := hl
      rw [hroot, List.nil_append]
  | cons p above ih => rw [h.ancestors_of_parent hl.1, ih hl.2, List.cons_append]

/-- A path that is not empty ends in the root. -/
theorem Leads.getLast? {p : NodeId} (hl : t.Leads root n (p :: above)) :
    (p :: above).getLast? = some root := by
  induction above generalizing n p with
  | nil =>
      have hroot : p = root := hl.2
      rw [List.getLast?_singleton, hroot]
  | cons q above ih => rw [List.getLast?_cons_cons, ih hl.2]

end Tree

namespace Cursor

variable {t : Tree} {c d : Cursor} {root n target : NodeId}

/-- **Root and node determine a cursor whose path is true.** -/
theorem OnPath.unique (h : t.WellFormed) (hc : c.OnPath t) (hd : d.OnPath t)
    (hroot : c.root = d.root) (hnode : c.node = d.node) : c = d := by
  obtain ⟨root, n, above⟩ := c
  obtain ⟨root', n', above'⟩ := d
  cases hroot
  cases hnode
  have hboth : above ++ t.ancestors root = above' ++ t.ancestors root :=
    (Tree.Leads.ancestors_eq h hc).symm.trans (Tree.Leads.ancestors_eq h hd)
  rw [List.append_cancel_right hboth]

/-- At its start a walk has all descendants left. -/
theorem remaining_start (h : t.WellFormed) (root : NodeId) :
    (start root).remaining t = t.descendants root := by
  simp [remaining, start, Tree.after, h.descendants_eq]

/-! ### Steps -/

/-- A step goes to the first node that remains, on a true path. -/
theorem onPath_next (h : t.WellFormed) (hc : c.OnPath t) (hstep : c.next t.view = some d) :
    d.root = c.root ∧ d.OnPath t ∧ c.remaining t = d.node :: d.remaining t := by
  rcases next_spec h hc with ⟨hend, -⟩ | ⟨e, he, hspec⟩
  · rw [hend] at hstep
    cases hstep
  · rw [he] at hstep
    cases hstep
    exact hspec

/-- A move goes to its target, on a true path. -/
theorem onPath_moveTo (h : t.WellFormed) (hc : c.OnPath t)
    (hmove : c.moveTo t.view target = some d) : d.root = c.root ∧ d.node = target ∧ d.OnPath t := by
  rcases moveTo_spec h hc target with ⟨-, hnone⟩ | ⟨e, -, he, hspec⟩
  · rw [hnone] at hmove
    cases hmove
  · rw [he] at hmove
    cases hmove
    exact hspec

/-! ### Runs -/

/-- **A walk ends**, and up to its end it comes to what remains. -/
theorem exists_visits (h : t.WellFormed) (hc : c.OnPath t) :
    ∃ stops, Visits t.view c stops ∧ stops.map node = c.remaining t ∧
      ∀ d ∈ stops, d.root = c.root ∧ d.OnPath t := by
  induction hremaining : c.remaining t generalizing c with
  | nil =>
      rcases next_spec h hc with ⟨hend, -⟩ | ⟨d, -, -, -, hd⟩
      · exact ⟨[], hend, rfl, fun d hd => absurd hd List.not_mem_nil⟩
      · rw [hremaining] at hd
        cases hd
  | cons n ns ih =>
      rcases next_spec h hc with ⟨-, hnone⟩ | ⟨d, hstep, hroot, hpath, hd⟩
      · rw [hremaining] at hnone
        cases hnone
      · rw [hremaining] at hd
        obtain ⟨hn, hns⟩ := List.cons.inj hd
        obtain ⟨stops, hvisits, hnodes, hstops⟩ := ih hpath hns.symm
        refine ⟨d :: stops, ⟨hstep, hvisits⟩, by rw [List.map_cons, hnodes, hn], fun e he => ?_⟩
        rcases List.mem_cons.mp he with rfl | he
        · exact ⟨hroot, hpath⟩
        · exact ⟨(hstops e he).1.trans hroot, (hstops e he).2⟩

/-- What a walk comes to, and all that it still will, is the end of what remained at first. -/
theorem Reaches.spec (h : t.WellFormed) (hc : c.OnPath t) (hd : Reaches t.view c d) :
    d.root = c.root ∧ d.OnPath t ∧
      ∃ before, c.node :: c.remaining t = before ++ d.node :: d.remaining t := by
  induction hd with
  | refl => exact ⟨rfl, hc, [], rfl⟩
  | @tail d e _ hstep ih =>
      obtain ⟨hroot, hpath, before, hsplit⟩ := ih
      obtain ⟨hroot', hpath', hrest⟩ := onPath_next h hpath hstep
      refine ⟨hroot'.trans hroot, hpath', before ++ [d.node], ?_⟩
      rw [hsplit, hrest, List.append_assoc, List.singleton_append]

/-- A walk from a node comes to all nodes at and below it. -/
theorem exists_reaches (h : t.WellFormed) (hn : n = root ∨ t.Below n root) :
    ∃ d, Reaches t.view (start root) d ∧ d.node = n := by
  rcases hn with rfl | hbelow
  · exact ⟨start n, Relation.ReflTransGen.refl, rfl⟩
  · obtain ⟨stops, hvisits, hnodes, -⟩ := exists_visits h (onPath_start root)
    rw [remaining_start h] at hnodes
    rw [← h.mem_descendants, ← hnodes] at hbelow
    obtain ⟨d, hd, hnode⟩ := List.mem_map.mp hbelow
    exact ⟨d, hvisits.reaches hd, hnode⟩

/-- **Steps and moves keep the path true.** -/
theorem Reached.onPath (h : t.WellFormed) (hc : c.Reached t.view root) :
    c.root = root ∧ c.OnPath t := by
  induction hc with
  | start => exact ⟨rfl, onPath_start root⟩
  | next _ hstep ih =>
      obtain ⟨hroot, hpath, -⟩ := onPath_next h ih.2 hstep
      exact ⟨hroot.trans ih.1, hpath⟩
  | moveTo _ target hmove ih =>
      obtain ⟨hroot, -, hpath⟩ := onPath_moveTo h ih.2 hmove
      exact ⟨hroot.trans ih.1, hpath⟩

/-- A move fails outside of the subtree of the root. -/
theorem Reached.moveTo_eq_none_iff (h : t.WellFormed) (hc : c.Reached t.view root)
    (target : NodeId) :
    c.moveTo t.view target = none ↔ ¬ (target = root ∨ t.Below target root) := by
  obtain ⟨rfl, hpath⟩ := hc.onPath h
  rcases moveTo_spec h hpath target with ⟨hout, hnone⟩ | ⟨d, hin, hd, -⟩
  · simp [hout, hnone]
  · simp [hin, hd]

/-- **A move leads to where a fresh walk comes by.**  A fresh walk comes to the target too, and
there is one cursor for it. -/
theorem Reached.moveTo_eq_some_iff (h : t.WellFormed) (hc : c.Reached t.view root)
    (target : NodeId) (d : Cursor) :
    c.moveTo t.view target = some d ↔
      Reaches t.view (Cursor.start root) d ∧ d.node = target := by
  obtain ⟨rfl, hpath⟩ := hc.onPath h
  constructor
  · intro hmove
    obtain ⟨hroot, hnode, hd⟩ := onPath_moveTo h hpath hmove
    have hin : target = c.root ∨ t.Below target c.root := by
      rw [← hnode, ← hroot]
      exact Tree.Leads.eq_or_below hd
    obtain ⟨e, he, hnode'⟩ := exists_reaches h hin
    obtain ⟨hroot', he', -⟩ := he.spec h (onPath_start c.root)
    have heq : d = e := hd.unique h he' (hroot.trans hroot'.symm) (hnode.trans hnode'.symm)
    exact ⟨heq ▸ he, hnode⟩
  · rintro ⟨hreaches, rfl⟩
    obtain ⟨hroot, hd, -⟩ := hreaches.spec h (onPath_start c.root)
    have hin : d.node = c.root ∨ t.Below d.node c.root := by
      have hin := Tree.Leads.eq_or_below hd
      rwa [hroot] at hin
    rcases moveTo_spec h hpath d.node with ⟨hout, -⟩ | ⟨e, -, hmove, hroot', hnode, he⟩
    · exact absurd hin hout
    · rw [hmove, hd.unique h he (hroot.trans hroot'.symm) hnode.symm]

/-- From there on the walk goes on as a fresh walk does. -/
theorem Reaches.exists_visits (h : t.WellFormed) (hd : Reaches t.view (start root) d) :
    ∃ before stops, Visits t.view d stops ∧
      root :: t.descendants root = before ++ d.node :: stops.map node := by
  obtain ⟨-, hpath, before, hsplit⟩ := hd.spec h (onPath_start root)
  obtain ⟨stops, hvisits, hnodes, -⟩ := Cursor.exists_visits h hpath
  rw [remaining_start h] at hsplit
  exact ⟨before, stops, hvisits, hnodes ▸ hsplit⟩

end Cursor

/-! ### All walks of a store -/

namespace Tree

variable {t : Tree} {p r : NodeId}

/-- Nodes stand in the order of their subtrees one behind the other. -/
theorem WellFormed.sublist_flatMap_subtree (h : t.WellFormed) (ns : List NodeId) :
    ns.Sublist (ns.flatMap t.subtree) := by
  induction ns with
  | nil => exact List.Sublist.refl []
  | cons n ns ih =>
      rw [List.flatMap_cons, h.subtree_eq_cons, List.cons_append]
      exact (ih.trans (List.sublist_append_right _ _)).cons_cons n

/-- A listing holds the listings below its nodes as they are. -/
theorem WellFormed.descendants_sublist (h : t.WellFormed) (hpr : t.Below p r) :
    (t.descendants p).Sublist (t.descendants r) := by
  have hstep : ∀ {c q}, t.parent c = some q → (t.descendants c).Sublist (t.descendants q) := by
    intro c q hc
    have hsubtree : (t.subtree c).Sublist ((t.children q).flatMap t.subtree) :=
      List.sublist_flatten_of_mem (List.mem_map_of_mem (h.mem_children.mpr hc))
    rw [h.subtree_eq_cons] at hsubtree
    rw [h.descendants_eq q]
    exact (List.sublist_cons_self c _).trans hsubtree
  induction hpr using Relation.TransGen.head_induction_on with
  | single hp => exact hstep hp
  | head hp _ ih => exact (hstep hp).trans ih

/-- Siblings are listed in their order. -/
theorem WellFormed.children_sublist (h : t.WellFormed) (hpr : p = r ∨ t.Below p r) :
    (t.children p).Sublist (t.descendants r) := by
  have hown : (t.children p).Sublist (t.descendants p) := by
    rw [h.descendants_eq]
    exact h.sublist_flatMap_subtree _
  rcases hpr with rfl | hbelow
  · exact hown
  · exact hown.trans (h.descendants_sublist hbelow)

/-- **What the walks from a node come to, and in which order.** -/
structure WalksAgree (t : Tree) (r : NodeId) : Prop where
  /-- The walk with a cursor ends.  It comes to what the walk with a stack comes to, and its path is
  the chain of ancestors of its node, up to `r`. -/
  cursors : ∃ stops, Cursor.Visits t.view (Cursor.start r) stops ∧
    stops.map Cursor.node = t.descendants r ∧
      ∀ c ∈ stops, t.ancestors c.node = c.above ++ t.ancestors r ∧ c.above.getLast? = some r ∧
        t.depth c.node = c.depth + t.depth r
  /-- The cursor's listing is the one of the stack. -/
  listed : t.view.descendants r = t.descendants r
  /-- The walk with a stack ends too: no larger bound makes it longer. -/
  ended : ∀ bound, t.size ≤ bound →
    preorder t.children bound (t.children r) = t.descendants r
  mem : ∀ n, n ∈ t.descendants r ↔ r ∈ t.ancestors n
  nodup : (t.descendants r).Nodup
  /-- A node is listed before what stands below it. -/
  topDown : (t.descendants r).Pairwise fun a b => ¬ t.Below a b
  siblings : ∀ p, p = r ∨ t.Below p r → (t.children p).Sublist (t.descendants r)

/-- **The walks of a well-formed tree agree.** -/
theorem WellFormed.walksAgree (h : t.WellFormed) (r : NodeId) : t.WalksAgree r where
  cursors := by
    obtain ⟨stops, hvisits, hnodes, hstops⟩ := Cursor.exists_visits h (Cursor.onPath_start r)
    rw [Cursor.remaining_start h] at hnodes
    refine ⟨stops, hvisits, hnodes, fun c hc => ?_⟩
    obtain ⟨root, n, above⟩ := c
    obtain ⟨hroot, hpath⟩ := hstops _ hc
    obtain rfl : r = root := hroot.symm
    have hancestors : t.ancestors n = above ++ t.ancestors r := Leads.ancestors_eq h hpath
    have hbelow : t.Below n r := by
      rw [← h.mem_descendants, ← hnodes]
      exact List.mem_map_of_mem hc
    refine ⟨hancestors, ?_, ?_⟩
    · cases above with
      | nil =>
          have hroot : n = r := hpath
          exact absurd (hroot ▸ hbelow) (h.not_below_self r)
      | cons p above => exact Leads.getLast? hpath
    · change (t.ancestors n).length = above.length + (t.ancestors r).length
      rw [hancestors, List.length_append]
  listed := h.view_descendants r
  ended bound hbound := by
    rw [preorder_eq_take h, h.descendants_eq,
      List.take_of_length_le (Nat.le_trans (h.length_below_le r) hbound)]
  mem n := h.mem_descendants.trans h.mem_ancestors.symm
  nodup := h.nodup_descendants r
  topDown := by
    refine (h.pairwise_descendants r).imp fun hab hbelow => ?_
    exact h.not_precedes_self _ (h.precedes_trans hab (h.precedes_of_below hbelow))
  siblings p hp := h.children_sublist hp

end Tree

/-! ### Stores without cycles -/

namespace Cursor

variable {t : Tree} {c : Cursor} {root : NodeId}

@[simp] theorem visits_outline : Visits t.outline.view = Visits t.view := by
  funext c stops
  induction stops generalizing c with
  | nil => simp only [Visits, next_outline]
  | cons d stops ih => simp only [Visits, next_outline, ih]

@[simp] theorem reaches_outline : Reaches t.outline.view = Reaches t.view := by
  simp only [Reaches, next_outline]

/-- A cursor that was reached is reached in the outline. -/
theorem Reached.outline (hc : c.Reached t.view root) : c.Reached t.outline.view root := by
  induction hc with
  | start => exact .start
  | next _ hstep ih => exact ih.next (by rwa [next_outline])
  | moveTo _ target hmove ih => exact ih.moveTo target (by rwa [moveTo_outline])

/-- **A cursor does not remember how it came to its node.**  After any steps and moves below a root
it moves to every node at or below the root and to no other, and what it is then is what the cursor
of a fresh walk is that comes by; from there the walk goes on through the rest of the listing. -/
theorem moveTo_eq_some_iff_reaches (ht : t.Built) (hacyclic : ∀ n, ¬ t.Below n n)
    (hc : c.Reached t.view root) (target : NodeId) :
    (c.moveTo t.view target = none ↔ ¬ (target = root ∨ t.Below target root)) ∧
      (∀ d, c.moveTo t.view target = some d ↔ Reaches t.view (start root) d ∧ d.node = target) ∧
        ∀ d, c.moveTo t.view target = some d → ∃ before stops, Visits t.view d stops ∧
          root :: t.descendants root = before ++ target :: stops.map node := by
  have h := ht.wellFormed_outline hacyclic
  have hnone := hc.outline.moveTo_eq_none_iff h target
  have hsome := hc.outline.moveTo_eq_some_iff h target
  have hvisits := fun d (hd : Reaches t.outline.view (start root) d) => hd.exists_visits h
  simp only [moveTo_outline, Tree.below_outline, reaches_outline, visits_outline,
    Tree.descendants_outline] at hnone hsome hvisits
  refine ⟨hnone, hsome, fun d hd => ?_⟩
  obtain ⟨hreaches, rfl⟩ := (hsome d).mp hd
  exact hvisits d hreaches

/-- The cursor went from the document to the text in the fragment, on to the paragraph behind it,
and goes back to the fragment. -/
theorem moveTo_eq_some_iff_reaches_grafted :
    ∃ c d, Reached Tree.grafted.view 0 c ∧ c.node = 2 ∧ c.moveTo Tree.grafted.view 3 = some d ∧
      d.above = [1, 0] ∧ Reaches Tree.grafted.view (start 0) d ∧
        c.moveTo Tree.grafted.view 6 = none := by
  let c : Cursor := { root := 0, node := 2, above := [1, 0] }
  let d : Cursor := { root := 0, node := 3, above := [1, 0] }
  have hc : c.Reached Tree.grafted.view 0 := by
    have htext : Reached Tree.grafted.view 0 { root := 0, node := 4, above := [3, 1, 0] } :=
      Reached.start.moveTo 4 (by decide +kernel)
    exact htext.next (by decide +kernel)
  have hmove : c.moveTo Tree.grafted.view 3 = some d := by
    decide +kernel
  have hspec := moveTo_eq_some_iff_reaches Tree.grafted_built Tree.grafted_acyclic hc 3
  exact ⟨c, d, hc, rfl, hmove, rfl, ((hspec.2.1 d).mp hmove).1, by decide +kernel⟩

end Cursor

namespace Tree

variable {t : Tree}

/-- **The walks agree in every store without cycles.** -/
theorem walksAgree_of_built (ht : t.Built) (hacyclic : ∀ n, ¬ t.Below n n) (r : NodeId) :
    t.WalksAgree r := by
  have hwalks := (ht.wellFormed_outline hacyclic).walksAgree r
  have hlisted : t.outline.view.descendants r = t.view.descendants r := by
    change (Cursor.start r).rest t.outline.view t.outline.size = _
    rw [Cursor.rest_outline, size_outline]
    rfl
  exact
    { cursors := by simpa using hwalks.cursors
      listed := by simpa [hlisted] using hwalks.listed
      ended := by simpa using hwalks.ended
      mem := by simpa using hwalks.mem
      nodup := by simpa using hwalks.nodup
      topDown := by simpa using hwalks.topDown
      siblings := by simpa using hwalks.siblings }

/-- From the fragment, behind which stands another child of the `div`. -/
theorem walksAgree_of_built_grafted :
    grafted.Built ∧ (∀ n, ¬ grafted.Below n n) ∧ grafted.WalksAgree 3 ∧ grafted.next 3 = some 2 ∧
      grafted.descendants 3 = [4] ∧ grafted.descendants 0 = [1, 3, 4, 2] :=
  ⟨grafted_built, grafted_acyclic, walksAgree_of_built grafted_built grafted_acyclic 3,
    by decide +kernel, by decide +kernel, by decide +kernel⟩

end Tree

end Selectors

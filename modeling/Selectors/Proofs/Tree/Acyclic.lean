import Mathlib.Data.Finset.Card
import Selectors.Proofs.Tree.Cursor
import Selectors.Proofs.Tree.Order
import Selectors.Proofs.Tree.Runs

/-!
# Trees without cycles

Walks and positions follow links and never ask what a node is.  All they need is that the links
agree and that no node stands below itself: a fragment may have a parent, and a node may stand below
its own shadow root.  Such a store is well formed once every node in it is taken for a comment, and
its walks and positions stay what they were.

* `Tree.Built` are the stores that changes make, with cycles or without.
* `Tree.exists_rank_of_acyclic` turns the lack of cycles into a rank.
* `Tree.outline` takes all nodes for comments, `Tree.Built.wellFormed_outline` says that this gives
  a well-formed tree, and the equations after it say that nothing moves.
-/

namespace Selectors

namespace Tree

/-- The stores that changes make from an empty document, whatever is put below what. -/
inductive Built : Tree → Prop
  | empty (content : ContentType) : Built (Tree.empty content)
  | step {t : Tree} {c : Change} (built : Built t) (range : c.InRange t) : Built (t.apply c)

variable {t : Tree}

/-- What changes make of a built store is built. -/
theorem Built.foldl {cs : List Change} (ht : t.Built) (hcs : Admits Change.InRange t cs) :
    (cs.foldl apply t).Built :=
  hcs.foldl (fun _ _ hc ht => ht.step hc) ht

/-- **A built store is linked**, with cycles or without. -/
theorem Built.linked (ht : t.Built) : t.Linked := by
  induction ht with
  | empty content => exact (empty_wellFormed content).toLinked
  | step _ range ih => exact apply_linked ih range

/-! ### Ranks -/

/-- **Without cycles the number of nodes that steps lead to is a rank**: a step leads to all that
the next node leads to, and to that node too.  The next node is among those that this step leads to,
and not among those that its own steps lead to. -/
theorem exists_rank_of_acyclic {R : NodeId → NodeId → Prop} {size : Nat}
    (hlt : ∀ {n m}, R n m → m < size) (hacyclic : ∀ n, ¬ Relation.TransGen R n n) :
    ∃ rank : NodeId → Nat, (∀ n, rank n ≤ size) ∧ ∀ {n m}, R n m → rank m < rank n := by
  classical
  let ahead (n : NodeId) := (Finset.range size).filter (Relation.TransGen R n)
  refine ⟨fun n => (ahead n).card, fun n => ?_, fun {n m} hnm => ?_⟩
  · exact (Finset.card_filter_le ..).trans_eq (Finset.card_range size)
  · refine Finset.card_lt_card (Finset.ssubset_iff_of_subset ?_ |>.mpr ⟨m, ?_, ?_⟩)
    · intro a ha
      obtain ⟨hsize, hsteps⟩ := Finset.mem_filter.mp ha
      exact Finset.mem_filter.mpr ⟨hsize, Relation.TransGen.head hnm hsteps⟩
    · exact Finset.mem_filter.mpr ⟨Finset.mem_range.mpr (hlt hnm), Relation.TransGen.single hnm⟩
    · intro hself
      exact hacyclic m (Finset.mem_filter.mp hself).2

/-- The links of a store without cycles have a rank. -/
theorem Linked.ranked_of_acyclic (h : t.Linked) (hacyclic : ∀ n, ¬ t.Below n n) : t.Ranked := by
  obtain ⟨rank, -, hrank⟩ :=
    exists_rank_of_acyclic (R := fun a b => t.parent a = some b) h.lt_size hacyclic
  exact ⟨rank, hrank⟩

/-- A rank of the nodes in the store is a rank: no other node has a parent. -/
theorem acyclic_of_rank (rank : NodeId → Nat)
    (hrank : ∀ n < t.size, (t.parent n).all (fun p => rank p < rank n) = true) :
    ∀ n, ¬ t.Below n n := by
  refine Ranked.not_below_self ⟨rank, fun {n p} hp => ?_⟩
  have hn := hrank n (lt_size_of_parent hp)
  rw [hp] at hn
  simpa using hn

/-- A fragment and a paragraph in a `div`, and an element with a text below its own shadow root.  On
the way the `div` and the paragraph stood below each other. -/
def grafts : List Change :=
  [.create (.element (Element.named (some Namespace.html) "div")),
    .create (.element (Element.named (some Namespace.html) "p")), .create .fragment,
    .create (.text "x"), .create (.element (Element.named (some Namespace.html) "b")),
    .create (.text "y"), .insert 2 1 none, .insert 1 2 none, .insert 0 1 none,
    .insert 1 3 (some 2), .insert 3 4 none, .insert 5 6 none, .attachShadow 5 .opened,
    .insert 7 5 none]

/-- The store that `grafts` make. -/
def grafted : Tree :=
  grafts.foldl apply (Tree.empty .html)

/-- The grafted store is built: its changes are in range. -/
theorem grafted_built : grafted.Built :=
  (Built.empty .html).foldl (by decide +kernel)

/-- The grafted store has no cycle. -/
theorem grafted_acyclic : ∀ n, ¬ grafted.Below n n :=
  acyclic_of_rank (fun n => [0, 1, 2, 2, 3, 1, 2, 0].getD n 0) (by decide +kernel)

/-! ### Only the links -/

/-- The tree in which every node is taken for a comment. -/
def outline (t : Tree) : Tree :=
  { t with nodes := t.nodes.map fun node => { node with data := .comment "" } }

/-- The outline has the nodes of the store as comments. -/
theorem get?_outline (n : NodeId) :
    t.outline.get? n = (t.get? n).map fun node => { node with data := .comment "" } := by
  simp [outline, get?]

/-- Every node of the outline holds a comment. -/
theorem data?_outline (n : NodeId) :
    t.outline.data? n = (t.data? n).map fun _ => .comment "" := by
  simp [data?, get?_outline, Function.comp_def]

/-- The outline has the same links. -/
theorem sameLinks_outline (t : Tree) : SameLinks t t.outline := by
  refine ⟨?_, ?_, ?_, ?_⟩ <;> funext n
  · simp [parent, get?_outline, Option.bind_map]
  · simp [children, get?_outline, Function.comp_def]
  · simp [previous, get?_outline, Option.bind_map]
  · simp [next, get?_outline, Option.bind_map]

/-- **A store whose links agree, and which has no cycle, is a well-formed tree of comments.** -/
theorem Built.wellFormed_outline (ht : t.Built) (hacyclic : ∀ n, ¬ t.Below n n) :
    t.outline.WellFormed := by
  have hlinks := sameLinks_outline t
  have hhost : ∀ n, t.outline.shadowHost n = none := by
    intro n
    unfold shadowHost
    rw [data?_outline]
    cases t.data? n <;> rfl
  have hroot : ∀ n, t.outline.shadowRoot n = none := by
    intro n
    unfold shadowRoot element?
    rw [data?_outline]
    cases t.data? n <;> rfl
  obtain ⟨rank, hrank⟩ := ht.linked.ranked_of_acyclic hacyclic
  refine ⟨ht.linked.of_sameLinks hlinks, ⟨rank, fun {n m} hnm => ?_⟩, ?_, ?_⟩
  · rcases hnm with hparent | hhosts
    · rw [hlinks.parent] at hparent
      exact hrank hparent
    · rw [hhost] at hhosts
      cases hhosts
  · intro n d hd hstays
    rw [data?_outline] at hd
    obtain ⟨-, -, rfl⟩ := Option.map_eq_some_iff.mp hd
    cases hstays
  · intro host r
    rw [hhost, hroot]
    simp

/-! ### What stays -/

@[simp] theorem size_outline : t.outline.size = t.size := by
  simp [outline, size]

@[simp] theorem parent_outline : t.outline.parent = t.parent :=
  (sameLinks_outline t).parent

@[simp] theorem children_outline : t.outline.children = t.children :=
  (sameLinks_outline t).children

@[simp] theorem next_outline : t.outline.next = t.next :=
  (sameLinks_outline t).next

/-- What stands below what stays in the outline. -/
@[simp] theorem below_outline : t.outline.Below = t.Below := by
  funext n a
  simp only [Below, parent_outline]

/-- Ancestors stay in the outline. -/
@[simp] theorem ancestors_outline : t.outline.ancestors = t.ancestors := by
  funext n
  simp only [ancestors, parent_outline, size_outline]

/-- Depths stay in the outline. -/
@[simp] theorem depth_outline : t.outline.depth = t.depth := by
  funext n
  simp only [depth, ancestors_outline]

/-- Roots stay in the outline. -/
@[simp] theorem rootOf_outline : t.outline.rootOf = t.rootOf := by
  funext n
  simp only [rootOf, ancestors_outline]

/-- Descendants stay in the outline. -/
@[simp] theorem descendants_outline : t.outline.descendants = t.descendants := by
  funext n
  simp only [descendants, children_outline, size_outline]

/-- Where two paths part stays in the outline. -/
theorem branchOrder_outline (p : NodeId) (as bs : List NodeId) :
    t.outline.branchOrder p as bs = t.branchOrder p as bs := by
  induction as generalizing p bs with
  | nil => rfl
  | cons a as ih =>
      cases bs with
      | nil => rfl
      | cons b bs => simp only [branchOrder, ih, children_outline]

/-- **Positions stay in the outline.** -/
@[simp] theorem position_outline : t.outline.position = t.position := by
  funext a b
  simp only [position, path, rootOf_outline, ancestors_outline, branchOrder_outline]

end Tree

namespace Cursor

variable {t : Tree}

/-- Climbing goes as far in the outline. -/
theorem climb_outline (root n : NodeId) (above : List NodeId) :
    climb t.outline.view root n above = climb t.view root n above := by
  have hnext : t.outline.view.next = t.view.next := Tree.next_outline
  induction above generalizing n with
  | nil => simp only [climb, hnext]
  | cons p above ih => simp only [climb, hnext, ih]

/-- **A step of a walk depends on links only.** -/
@[simp] theorem next_outline : next t.outline.view = next t.view := by
  funext c
  have hfirst : t.outline.view.firstChild = t.view.firstChild := by
    funext n
    change (t.outline.children n).head? = (t.children n).head?
    rw [Tree.children_outline]
  simp only [next, hfirst, climb_outline]

/-- **A move depends on links only.** -/
@[simp] theorem moveTo_outline : moveTo t.outline.view = moveTo t.view := by
  funext c target
  have hancestors : t.outline.view.ancestors = t.view.ancestors := Tree.ancestors_outline
  simp only [moveTo, hancestors]

/-- What is left of a walk stays in the outline. -/
@[simp] theorem rest_outline : rest t.outline.view = rest t.view := by
  funext bound c
  induction bound generalizing c with
  | zero => rfl
  | succ bound ih => simp only [rest, next_outline, ih]

end Cursor

end Selectors

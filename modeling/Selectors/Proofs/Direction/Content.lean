import Selectors.Proofs.Direction.Search

/-!
# What content decides

The direction that an element's content decides is the first strong character of what it shows: of
its texts, one after the other, where nothing below a slot counts but what is assigned to it, and
nothing below an element with a direction of its own.  Where there are no slots, these are the texts
below the element to which elements lead that have no direction of their own.

* `Tree.textsThrough` are the texts below a node that can be reached through certain nodes.
* `Tree.DirectedByContent` collects what the search computes, whatever the directions of characters
  are, and `Tree.Proper.directedByContent` says that it does so in every proper tree.

The search enters elements only.  A text below a comment, or below another text, is not found,
though nothing that it stands in has a direction of its own.
-/

namespace Selectors

/-! ### Joined texts -/

theorem findSome?_flatMap {α β γ : Type} {as : List α} {f : α → List β} {g : β → Option γ} :
    (as.flatMap f).findSome? g = as.findSome? fun a => (f a).findSome? g := by
  simp only [← List.head?_filterMap, List.filterMap_flatMap, List.head?_flatMap]

/-- The first strong character of joined texts is that of the first of them that has one. -/
theorem Text.firstStrongBy_join (strong : Char → Option TextDirection) (texts : List String) :
    Text.firstStrongBy strong (String.join texts) =
      texts.findSome? (Text.firstStrongBy strong) := by
  rw [Text.firstStrongBy, String.toList_join, findSome?_flatMap]
  rfl

namespace Tree

variable {t : Tree} {strong : Char → Option TextDirection} {n : NodeId}

/-! ### Texts below a node -/

/-- The nodes that stand above a node and below `top`. -/
def between (t : Tree) (top n : NodeId) : List NodeId :=
  (t.ancestors n).takeWhile (· != top)

/-- The texts below a node to which only nodes lead that one may pass through. -/
def textsThrough (t : Tree) (passes : NodeId → Bool) (top : NodeId) : List String :=
  (t.descendants top).filterMap fun n =>
    if (t.between top n).all passes then t.text? n else none

/-- An element whose content counts for those around it. -/
def joins (t : Tree) (n : NodeId) : Bool :=
  t.view.isElement n && !t.view.isolatesText n

/-- Nothing stands between a node and its parent. -/
theorem WellFormed.between_of_parent (h : t.WellFormed) {c top : NodeId}
    (hc : t.parent c = some top) : t.between top c = [] := by
  simp [between, h.ancestors_of_parent hc]

/-- What stands between a node and one above it stands below the child that leads there, or is that
child. -/
theorem WellFormed.between_of_below (h : t.WellFormed) {c top : NodeId}
    (hc : t.parent c = some top) (hn : t.Below n c) :
    t.between top n = t.between c n ++ [c] := by
  induction n using h.upward with
  | root n hp =>
      have hmem := h.mem_ancestors.mpr hn
      rw [h.ancestors_of_root hp] at hmem
      cases hmem
  | child n p hp ih =>
      have hstep : ∀ {a}, p ≠ a → t.between a n = p :: t.between a p := by
        intro a ha
        simp [between, h.ancestors_of_parent hp, ha]
      have hlower : p = c ∨ t.Below p c := (below_iff_of_parent hp).mp hn
      have htop : p ≠ top := by
        rintro rfl
        exact h.not_below_self p (below_iff_exists_child.mpr ⟨c, hc, hlower⟩)
      rw [hstep htop]
      rcases hlower with rfl | hpc
      · rw [h.between_of_parent hp, h.between_of_parent hc]
        rfl
      · have hne : p ≠ c := by
          rintro rfl
          exact h.not_below_self p hpc
        rw [hstep hne, ih hpc, List.cons_append]

theorem joins_eq_false (hkind : t.view.kind n ≠ .element) : t.joins n = false := by
  simp [joins, TreeView.isElement, hkind]

theorem text?_eq_none (hkind : t.view.kind n ≠ .text) : t.text? n = none := by
  change t.kind n ≠ .text at hkind
  unfold kind at hkind
  unfold text?
  cases hdata : t.data? n with
  | none => rfl
  | some data =>
      rw [hdata] at hkind
      cases data with
      | text s => exact absurd rfl hkind
      | _ => rfl

/-- **Texts are collected child by child**: the child itself, and what is below it if one may pass
through it. -/
theorem WellFormed.textsThrough_eq (h : t.WellFormed) (passes : NodeId → Bool) (top : NodeId) :
    t.textsThrough passes top = (t.children top).flatMap fun c =>
      (t.text? c).toList ++ if passes c then t.textsThrough passes c else [] := by
  rw [textsThrough, h.descendants_eq, List.filterMap_flatMap]
  refine List.flatMap_congr fun c hc => ?_
  have hparent := h.mem_children.mp hc
  have hbelow : (t.descendants c).filterMap (fun n =>
        if (t.between top n).all passes then t.text? n else none) =
      if passes c then t.textsThrough passes c else [] := by
    by_cases hpass : passes c = true
    · rw [if_pos hpass, textsThrough]
      refine List.filterMap_congr fun n hn => ?_
      simp [h.between_of_below hparent (h.mem_descendants.mp hn), hpass]
    · rw [if_neg hpass, List.filterMap_eq_nil_iff]
      intro n hn
      simp [h.between_of_below hparent (h.mem_descendants.mp hn), hpass]
  rw [h.subtree_eq_cons, List.filterMap_cons, h.between_of_parent hparent, hbelow]
  cases t.text? c <;> rfl

/-- **Without slots the first strong character of the texts decides.** -/
theorem WellFormed.findSome?_adds (h : t.WellFormed) {top : NodeId}
    (hslots : ∀ n, t.Below n top → t.view.isHtml n "slot" = false) :
    (t.children top).findSome? (t.view.adds strong) =
      (t.textsThrough t.joins top).findSome? (Text.firstStrongBy strong) := by
  induction top using h.downward with
  | node top ih =>
      rw [h.textsThrough_eq, findSome?_flatMap]
      refine findSome?_congr fun c hc => ?_
      have hparent := h.mem_children.mp hc
      have hslot := hslots c (Relation.TransGen.single hparent)
      have hbelow := ih c hc fun n hn => hslots n (hn.tail hparent)
      rw [List.findSome?_append, h.adds_eq]
      cases hkind : t.view.kind c with
      | text =>
          rw [TreeView.addsBy_text hkind, TreeView.textDirection?, joins_eq_false (by simp [hkind])]
          change (t.text? c).bind _ = _
          cases t.text? c <;> simp
      | element =>
          rw [text?_eq_none (by simp [hkind]), joins, TreeView.isElement, hkind]
          cases hisolates : t.view.isolatesText c with
          | true =>
              rw [TreeView.addsBy_isolated hkind hisolates]
              rfl
          | false =>
              rw [TreeView.addsBy_element hkind hisolates, TreeView.shownBy_of_not_slot hslot,
                h.view_children, hbelow]
              rfl
      | _ =>
          rw [TreeView.addsBy_other (by simp [hkind]) (by simp [hkind]),
            text?_eq_none (by simp [hkind]), joins_eq_false (by simp [hkind])]
          rfl

/-! ### Result -/

/-- **What the search for directions computes**, whatever the directions of characters are. -/
structure DirectedByContent (t : Tree) (strong : Char → Option TextDirection) : Prop where
  /-- What nodes add is the one solution of the equations for it. -/
  equations : ∀ adds, (∀ n, adds n = t.view.addsBy strong adds n) ↔ adds = t.view.adds strong
  /-- The search ends and finds what the first child adds that adds something. -/
  content : ∀ n bound, t.size < bound → t.view.contentDirection strong bound n =
    some ((t.children n).findSome? (t.view.adds strong))
  /-- A slot without a direction of its own adds the direction that its content decides for it. -/
  slot : ∀ n, t.view.isHtml n "slot" = true → t.view.isolatesText n = false →
    t.view.autoDirection strong n = some (t.view.adds strong n)
  /-- Every node is found to have a direction. -/
  ends : ∀ n bound, t.size < bound →
    t.view.directionWithin strong bound n = some (t.view.directionBy strong n)
  /-- Without slots the texts decide to which elements lead that have no direction of their own. -/
  texts : ∀ n, (∀ m, t.Below m n → t.view.isHtml m "slot" = false) →
    (t.children n).findSome? (t.view.adds strong) =
      Text.firstStrongBy strong (String.join (t.textsThrough t.joins n))

/-- **Every proper tree is directed by its content.** -/
theorem Proper.directedByContent (ht : t.Proper) (strong : Char → Option TextDirection) :
    t.DirectedByContent strong where
  equations := ht.wellFormed.adds_iff
  content n bound hbound := by
    rw [ht.wellFormed.contentDirection_eq_of_size_lt hbound, ht.wellFormed.view_children]
  slot n hslot hjoins := by
    have h := ht.wellFormed
    have hkind : t.view.kind n = .element := beq_iff_eq.mp (isElement_of_isHtml hslot)
    rw [h.autoDirection_eq, TreeView.directsByValue_of_slot hslot, if_neg Bool.false_ne_true,
      h.adds_eq, TreeView.addsBy_element hkind hjoins]
  ends n bound hbound := ht.wellFormed.directionWithin_eq hbound n
  texts n hslots := by
    rw [ht.wellFormed.findSome?_adds hslots, Text.firstStrongBy_join]

/-- A host with a text, and a shadow tree with a paragraph and a slot that has a text of its own. -/
def slottedText : List Change :=
  [.create (.element (Element.named (some Namespace.html) "div")), .create (.text "א"),
    .attachShadow 1 .opened, .create (.element (Element.named (some Namespace.html) "p")),
    .create (.element (Element.named (some Namespace.html) "slot")), .create (.text "a"),
    .insert 1 2 none, .insert 3 4 none, .insert 4 5 none, .insert 5 6 none]

/-- The text that the slot takes is written from right to left, and it goes before the slot's
own. -/
theorem directedByContent_slottedText :
    let t := slottedText.foldl apply (Tree.empty .html)
    t.Proper ∧ t.children 4 = [5] ∧ t.assignedNodes 5 = [2] ∧
      t.view.autoDirection Text.strong? 5 = some (some .rtl) ∧
      t.view.contentDirection Text.strong? 8 4 = some (some .rtl) ∧
      t.DirectedByContent Text.strong? := by
  intro t
  have hempty := Proper.empty .html
  have ht : t.Proper := hempty.foldl (hempty.admits_of_insertsBare (by decide +kernel))
  exact ⟨ht, by decide +kernel, by decide +kernel, by decide +kernel, by decide +kernel,
    Proper.directedByContent ht Text.strong?⟩

/-- An element with a comment, and a text below the comment. -/
def commentedText : List Change :=
  [.create (.element (Element.named (some Namespace.html) "div")), .create (.comment ""),
    .create (.text "א"), .setAttribute 1 "dir" "auto", .insert 1 2 none, .insert 2 3 none]

/-- The text stands below no element with a direction of its own, and no slot is there, but the
search does not enter the comment. -/
theorem contentDirection_commentedText :
    let t := commentedText.foldl apply (Tree.empty .html)
    t.Proper ∧ (∀ n < t.size, t.view.isHtml n "slot" = false) ∧
      Text.firstStrong (String.join (t.textsThrough (fun n => !t.view.isolatesText n) 1)) =
        some .rtl ∧
      ∀ bound, t.size < bound →
        t.view.contentDirection Text.strong? bound 1 = some none := by
  intro t
  have hempty := Proper.empty .html
  have ht : t.Proper := hempty.foldl (hempty.admits_of_insertsBare (by decide +kernel))
  refine ⟨ht, by decide +kernel, by decide +kernel, fun bound hbound => ?_⟩
  rw [ht.wellFormed.contentDirection_eq_of_size_lt hbound]
  decide +kernel

end Tree

end Selectors

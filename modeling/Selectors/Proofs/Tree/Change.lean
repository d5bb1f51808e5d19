import Mathlib.Data.List.Nodup
import Mathlib.Logic.Relation
import Selectors.Tree.Mutation
import Selectors.Tree.Walk

/-!
# What a change of a tree leaves alone

A tree is built by a few changes, and each is known completely by what it does to five things: what
a node is, its parent, its children, and the links to its two neighbours.  This file reads those off
for every change, so that no later proof opens a change again.

* `Change` and `Tree.apply` name the changes, `Change.InRange` asks for nodes of the store.
* `Tree.Proper` are the trees in whose making no document, fragment or shadow root was inserted, and
  no node below itself, not even through a host.
-/

namespace Selectors

/-- A change of a tree. -/
inductive Change where
  | create (data : NodeData)
  | insert (parent child : NodeId) (reference : Option NodeId)
  | remove (parent child : NodeId)
  | attachShadow (host : NodeId) (mode : ShadowMode)
  | setAttribute (n : NodeId) (name value : String)
  | setAttributeIn (n : NodeId) (space : Option String) (name value : String)
  | removeAttribute (n : NodeId) (name : String)
  | setLive (n : NodeId) (f : LiveState → LiveState)
  | setDocument (f : DocumentState → DocumentState)

namespace NodeData

/-- A node that was never the child of another one: a document, a fragment or a shadow root. -/
def staysRoot : NodeData → Bool
  | .document | .fragment | .shadowRoot .. => true
  | _ => false

/-- What a new node may be: it has no host and no shadow root, since only `Tree.attachShadow` joins
the two. -/
def IsFresh : NodeData → Prop
  | .shadowRoot .. => False
  | .element e => e.shadowRoot = none
  | _ => True

end NodeData

namespace Tree

/-- The tree after a change. -/
def apply (t : Tree) : Change → Tree
  | .create data => (t.create data).1
  | .insert parent child reference => t.insertBefore parent child reference
  | .remove parent child => t.removeChild parent child
  | .attachShadow host mode => (t.attachShadow host mode).1
  | .setAttribute n name value => t.setAttribute n name value
  | .setAttributeIn n space name value => t.setAttributeIn n space name value
  | .removeAttribute n name => t.removeAttribute n name
  | .setLive n f => t.setLive n f
  | .setDocument f => t.setDocument f

/-- `m` is the parent of `n`, or the host of the shadow root `n`. -/
def HangsFrom (t : Tree) (n m : NodeId) : Prop :=
  t.parent n = some m ∨ t.shadowHost n = some m

/-- `n` is `top` or stands below it, shadow trees standing below their hosts. -/
def Within (t : Tree) (n top : NodeId) : Prop :=
  Relation.ReflTransGen t.HangsFrom n top

end Tree

namespace Change

/-- New nodes are fresh, and the nodes that a change names are in the store. -/
def InRange (t : Tree) : Change → Prop
  | .create data => data.IsFresh
  | .insert parent child _ => parent < t.size ∧ child < t.size
  | .remove parent child => parent < t.size ∧ child < t.size
  | .attachShadow host _ => host < t.size
  | .setAttribute n .. | .setAttributeIn n .. | .removeAttribute n .. | .setLive n _ => n < t.size
  | .setDocument _ => True

/-- Only a node that may be a child is inserted, and not below itself. -/
def KeepsTrees (t : Tree) : Change → Prop
  | .insert parent child _ =>
    (∀ data, t.data? child = some data → data.staysRoot = false) ∧ ¬ t.Within parent child
  | _ => True

end Change

namespace Tree

/-- The trees that changes make from an empty document while every tree in the store stays one. -/
inductive Proper : Tree → Prop
  | empty (content : ContentType) : Proper (Tree.empty content)
  | step {t : Tree} {c : Change} (proper : Proper t) (range : c.InRange t)
      (keeps : c.KeepsTrees t) : Proper (t.apply c)

/-- A proper tree with a fresh node is proper. -/
theorem Proper.create {t : Tree} (h : t.Proper) {d : NodeData} (hd : d.IsFresh) :
    (t.apply (.create d)).Proper :=
  h.step hd trivial

/-- A proper tree with an attribute set is proper. -/
theorem Proper.setAttribute {t : Tree} (h : t.Proper) (n : NodeId) (name value : String)
    (hn : n < t.size) : (t.apply (.setAttribute n name value)).Proper :=
  h.step hn trivial

/-- A top node that has no host takes any other node that may be a child. -/
theorem Proper.insert {t : Tree} (h : t.Proper) (p c : NodeId) (reference : Option NodeId)
    (hc : p < t.size ∧ c < t.size ∧ (t.data? c).all (fun d => !d.staysRoot) = true ∧
      t.parent p = none ∧ t.shadowHost p = none ∧ p ≠ c) :
    (t.apply (.insert p c reference)).Proper := by
  obtain ⟨hp, hc, hdata, hparent, hhost, hne⟩ := hc
  refine h.step ⟨hp, hc⟩ ⟨fun data hd => ?_, fun hwithin => ?_⟩
  · rw [hd] at hdata
    simpa using hdata
  · cases hwithin using Relation.ReflTransGen.head_induction_on with
    | refl => exact hne rfl
    | head hstep _ =>
        rcases hstep with hstep | hstep
        · rw [hparent] at hstep
          cases hstep
        · rw [hhost] at hstep
          cases hstep

/-- A `div` with the id `a` that holds two paragraphs, outside of the document. -/
def detachedBox : Tree :=
  [Change.create (.element (Element.named (some Namespace.html) "div")),
    .create (.element (Element.named (some Namespace.html) "p")),
    .create (.element (Element.named (some Namespace.html) "p")),
    .setAttribute 1 "id" "a", .insert 1 2 none, .insert 1 3 none].foldl apply (Tree.empty .html)

/-- The detached box is proper: no change in its making breaks a tree. -/
theorem detachedBox_proper : detachedBox.Proper := by
  have hcreated := (((Proper.empty .html).create
    (d := .element (Element.named (some Namespace.html) "div")) rfl).create
    (d := .element (Element.named (some Namespace.html) "p")) rfl).create
    (d := .element (Element.named (some Namespace.html) "p")) rfl
  have hnamed := hcreated.setAttribute 1 "id" "a" (by decide +kernel)
  have hfirst := hnamed.insert 1 2 none (by decide +kernel)
  exact hfirst.insert 1 3 none (by decide +kernel)

/-- The same `div` in the document. -/
def attachedBox : Tree :=
  detachedBox.apply (.insert 0 1 none)

/-- The attached box is the detached one, put below the document. -/
theorem attachedBox_proper : attachedBox.Proper :=
  detachedBox_proper.insert 0 1 none (by decide +kernel)

/-! ### Looking a node up -/

/-- The store's own view of one place after a change elsewhere or there. -/
theorem get?_modify (t : Tree) (n m : NodeId) (f : Node → Node) :
    (t.modify n f).get? m = if n = m then (t.get? m).map f else t.get? m := by
  simp only [modify, get?, Array.getElem?_modify]

/-- A changed node leaves the store as large as it was. -/
@[simp] theorem size_modify (t : Tree) (n : NodeId) (f : Node → Node) :
    (t.modify n f).size = t.size := by
  simp [modify, size]

/-- Behind the last node nothing is found. -/
theorem get?_eq_none {t : Tree} {n : NodeId} (h : t.size ≤ n) : t.get? n = none := by
  simpa [get?, size] using h

theorem get?_isSome {t : Tree} {n : NodeId} (h : n < t.size) : ∃ node, t.get? n = some node := by
  have hn : n < t.nodes.size := h
  exact ⟨t.nodes[n], by simp [get?, hn]⟩

/-- A node that has a parent is stored. -/
theorem lt_size_of_parent {t : Tree} {n p : NodeId} (h : t.parent n = some p) : n < t.size := by
  by_contra hn
  simp [parent, get?_eq_none (Nat.le_of_not_lt hn)] at h

/-- A node that has children is stored. -/
theorem lt_size_of_mem_children {t : Tree} {n p : NodeId} (h : n ∈ t.children p) :
    p < t.size := by
  by_contra hp
  simp [children, get?_eq_none (Nat.le_of_not_lt hp)] at h

/-! ### Changing one node -/

section modify

variable (t : Tree) (n m : NodeId) (f : Node → Node)

/-- The parent after a change of one node. -/
theorem parent_modify : (t.modify n f).parent m =
    if n = m then ((t.get? m).map f).bind Node.parent else t.parent m := by
  unfold parent
  rw [get?_modify]
  split <;> rfl

theorem children_modify : (t.modify n f).children m =
    if n = m then (((t.get? m).map f).map Node.children).getD [] else t.children m := by
  unfold children
  rw [get?_modify]
  split <;> rfl

theorem previous_modify : (t.modify n f).previous m =
    if n = m then ((t.get? m).map f).bind Node.previous else t.previous m := by
  unfold previous
  rw [get?_modify]
  split <;> rfl

theorem next_modify : (t.modify n f).next m =
    if n = m then ((t.get? m).map f).bind Node.next else t.next m := by
  unfold next
  rw [get?_modify]
  split <;> rfl

/-- What a node holds after a change of one node. -/
theorem data?_modify : (t.modify n f).data? m =
    if n = m then ((t.get? m).map f).map Node.data else t.data? m := by
  unfold data?
  rw [get?_modify]
  split <;> rfl

end modify

/-- Two trees that differ at most in sibling links. -/
structure SameShape (t t' : Tree) : Prop where
  size : t'.size = t.size
  data : t'.data? = t.data?
  parent : t'.parent = t.parent
  children : t'.children = t.children

namespace SameShape

theorem refl (t : Tree) : SameShape t t :=
  ⟨rfl, rfl, rfl, rfl⟩

/-- The shape stays the same over two changes that keep it. -/
theorem trans {t t' t'' : Tree} (h : SameShape t t') (h' : SameShape t' t'') :
    SameShape t t'' :=
  ⟨h'.size.trans h.size, h'.data.trans h.data, h'.parent.trans h.parent,
    h'.children.trans h.children⟩

end SameShape

/-! ### Sibling links -/

/-- Sets the two sibling links of a node. -/
private def link (t : Tree) (c : NodeId) (before after : Option NodeId) : Tree :=
  t.modify c fun node => { node with previous := before, next := after }

/-- Linking a node to its neighbours keeps the shape. -/
private theorem sameShape_link (t : Tree) (c : NodeId) (before after : Option NodeId) :
    SameShape t (t.link c before after) := by
  refine ⟨size_modify .., ?_, ?_, ?_⟩ <;> funext m <;> unfold link
  · rw [data?_modify]
    split <;> simp [data?, Function.comp_def]
  · rw [parent_modify]
    split
    · cases hget : t.get? m <;> simp [parent, hget]
    · rfl
  · rw [children_modify]
    split <;> simp [children, Function.comp_def]

/-- Linking a node changes its two sibling links, and no other node's. -/
private theorem links_link (t : Tree) (c m : NodeId) (before after : Option NodeId) :
    (t.link c before after).previous m =
        (if c = m ∧ c < t.size then before else t.previous m) ∧
      (t.link c before after).next m = (if c = m ∧ c < t.size then after else t.next m) := by
  unfold link
  rw [previous_modify, next_modify]
  by_cases hcm : c = m
  · subst hcm
    by_cases hc : c < t.size
    · obtain ⟨node, hnode⟩ := get?_isSome hc
      simp [hc, hnode]
    · simp [hc, get?_eq_none (Nat.le_of_not_lt hc), previous, next]
  · simp [hcm]

/-- Relinking a row of nodes keeps the shape. -/
theorem sameShape_relinkFrom (before : Option NodeId) (t : Tree) (cs : List NodeId) :
    SameShape t (relinkFrom before t cs) := by
  induction cs generalizing before t with
  | nil => exact SameShape.refl t
  | cons c rest ih =>
      exact (sameShape_link t c before rest.head?).trans (ih (some c) _)

/-- Relinking a child list does not touch other nodes. -/
theorem links_relinkFrom_of_not_mem (before : Option NodeId) (t : Tree) {cs : List NodeId}
    {m : NodeId} (hm : m ∉ cs) :
    (relinkFrom before t cs).previous m = t.previous m ∧
      (relinkFrom before t cs).next m = t.next m := by
  induction cs generalizing before t with
  | nil => exact ⟨rfl, rfl⟩
  | cons c rest ih =>
      have hne : c ≠ m := fun h => hm (h ▸ List.mem_cons_self)
      have hlink := links_link t c m before rest.head?
      obtain ⟨hprevious, hnext⟩ := ih (some c) (t.link c before rest.head?)
        (fun h => hm (List.mem_cons_of_mem _ h))
      exact ⟨hprevious.trans (by simp [hlink.1, hne]), hnext.trans (by simp [hlink.2, hne])⟩

/-- After relinking, each node of the child list is linked to its two neighbours there. -/
theorem links_relinkFrom (before : Option NodeId) (t : Tree) {pre post : List NodeId}
    {c : NodeId} (hnd : (pre ++ c :: post).Nodup) (hc : c < t.size) :
    (relinkFrom before t (pre ++ c :: post)).previous c = pre.getLast?.or before ∧
      (relinkFrom before t (pre ++ c :: post)).next c = post.head? := by
  induction pre generalizing before t with
  | nil =>
      have hrest : c ∉ post := (List.nodup_cons.mp hnd).1
      obtain ⟨hprevious, hnext⟩ := links_relinkFrom_of_not_mem (some c)
        (t.link c before post.head?) hrest
      have hlink := links_link t c c before post.head?
      exact ⟨hprevious.trans (by simp [hlink.1, hc]), hnext.trans (by simp [hlink.2, hc])⟩
  | cons a pre ih =>
      have hsize := (sameShape_link t a before (pre ++ c :: post).head?).size
      obtain ⟨hprevious, hnext⟩ := ih (some a) (t.link a before (pre ++ c :: post).head?)
        (List.nodup_cons.mp hnd).2 (hsize ▸ hc)
      refine ⟨hprevious.trans ?_, hnext⟩
      cases pre with
      | nil => simp
      | cons b pre => simp [List.getLast?_cons]

end Tree

end Selectors

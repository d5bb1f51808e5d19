import Selectors.Proofs.Tree.Relations
import Selectors.Proofs.Tree.Runs

/-!
# Slots and what they take

A child of a host looks for its slot from above: up to the host, into the shadow tree, and on to the
first slot with its name.  A slot looks for its nodes from below: up to the shadow root, out to the
host, and through the host's children.  Since a host and its shadow root know each other, and a
shadow root stays the root of its tree, the two ways find the same pairs, whatever was moved or
renamed before.

* `Tree.WellFormed.findSlot_eq_some` reads off where the slot of a node stands.
* `Tree.SlotsAgree` is the agreement of the two ways, and `Tree.slotsAgree_of_changes` says that it
  holds after every row of changes.
-/

namespace Selectors.Tree

variable {t : Tree} {s c : NodeId}

/-! ### From a node to its slot -/

/-- **The slot of a node** stands in the shadow tree of its parent.  The shadow root has no parent,
so it is the root of the slot's tree. -/
theorem WellFormed.findSlot_eq_some (h : t.WellFormed) (hs : t.findSlot c = some s) :
    ∃ host, t.parent c = some host ∧ t.shadowHost (t.rootOf s) = some host ∧
      t.isSlot s = true := by
  unfold findSlot at hs
  obtain ⟨name, -, hs⟩ := Option.bind_eq_some_iff.mp hs
  obtain ⟨host, hhost, hs⟩ := Option.bind_eq_some_iff.mp hs
  obtain ⟨shadow, hshadow, hs⟩ := Option.bind_eq_some_iff.mp hs
  have hbelow : t.Below s shadow := h.mem_descendants.mp (List.mem_of_find?_eq_some hs)
  have hslot := List.find?_some hs
  rw [Bool.and_eq_true] at hslot
  have hback : t.shadowHost shadow = some host := h.shadow.mp hshadow
  have hroot : t.parent shadow = none := by
    unfold shadowHost at hback
    split at hback
    · next hdata => exact h.roots hdata rfl
    · cases hback
  refine ⟨host, hhost, ?_, hslot.1⟩
  rw [h.rootOf_of_below hbelow, h.rootOf_of_root hroot]
  exact hback

/-! ### From a slot to its nodes -/

/-- **A slot lists a node if it is the node's slot.** -/
theorem WellFormed.mem_assignedNodes (h : t.WellFormed) :
    c ∈ t.assignedNodes s ↔ t.findSlot c = some s := by
  constructor
  · intro hc
    unfold assignedNodes at hc
    split at hc
    · split at hc
      · exact beq_iff_eq.mp (List.mem_filter.mp hc).2
      · cases hc
    · cases hc
  · intro hs
    obtain ⟨host, hparent, hhost, hslot⟩ := h.findSlot_eq_some hs
    rw [assignedNodes, if_pos hslot, hhost]
    apply List.mem_filter.mpr
    exact ⟨h.mem_children.mpr hparent, beq_iff_eq.mpr hs⟩

/-- What a slot lists are children of its host, in their order. -/
theorem assignedNodes_sublist {host : NodeId} (hhost : t.shadowHost (t.rootOf s) = some host) :
    (t.assignedNodes s).Sublist (t.children host) := by
  unfold assignedNodes
  split
  · rw [hhost]
    exact List.filter_sublist
  · exact List.nil_sublist _

/-- Outside of shadow trees a slot lists nothing. -/
theorem assignedNodes_eq_nil (hhost : t.shadowHost (t.rootOf s) = none) :
    t.assignedNodes s = [] := by
  unfold assignedNodes
  rw [hhost]
  split <;> rfl

/-! ### Both ways -/

/-- **The two ways between hosts and shadow roots, and between nodes and slots, agree.** -/
structure SlotsAgree (t : Tree) : Prop where
  hosts : ∀ host r, t.shadowRoot host = some r ↔ t.shadowHost r = some host
  slots : ∀ s c, c ∈ t.assignedNodes s ↔ t.findSlot c = some s
  unique : ∀ s s' c, c ∈ t.assignedNodes s → c ∈ t.assignedNodes s' → s = s'
  nodup : ∀ s, (t.assignedNodes s).Nodup
  inOrder : ∀ s host, t.shadowHost (t.rootOf s) = some host →
    (t.assignedNodes s).Sublist (t.children host)
  outside : ∀ s, t.shadowHost (t.rootOf s) = none → t.assignedNodes s = []
  /-- A selector's step from a node to its slot is the inverse of the step from a slot to its
  nodes. -/
  steps : ∀ s c, s ∈ t.view.leftOf c .slot ↔ c ∈ t.view.rightOf s .slot

/-- **In a well-formed tree slots and what they take agree.** -/
theorem WellFormed.slotsAgree (h : t.WellFormed) : t.SlotsAgree where
  hosts _ _ := h.shadow
  slots _ _ := h.mem_assignedNodes
  unique s s' c hs hs' := by
    rw [h.mem_assignedNodes] at hs hs'
    exact Option.some.inj (hs.symm.trans hs')
  nodup s := by
    cases hhost : t.shadowHost (t.rootOf s) with
    | none =>
        rw [assignedNodes_eq_nil hhost]
        exact List.nodup_nil
    | some host => exact (assignedNodes_sublist hhost).nodup (h.nodup host)
  inOrder _ _ := assignedNodes_sublist
  outside _ := assignedNodes_eq_nil
  steps s c := by
    rw [h.mem_leftOf]
    exact h.mem_assignedNodes.symm

/-- **Slots agree in every proper tree, and after every row of changes made to it**: moves, new
names, new shadow roots. -/
theorem slotsAgree_of_changes (ht : t.Proper) {cs : List Change}
    (hcs : Admits (fun t c => c.InRange t ∧ c.KeepsTrees t) t cs) :
    (cs.foldl apply t).SlotsAgree :=
  (ht.foldl hcs).wellFormed.slotsAgree

/-- A host with a paragraph for the slot `a` and a text, and a shadow tree with a slot for each. -/
def slottedBox : List Change :=
  [.create (.element (Element.named (some Namespace.html) "div")),
    .create (.element (Element.named (some Namespace.html) "p")), .create (.text "x"),
    .attachShadow 1 .opened, .create (.element (Element.named (some Namespace.html) "slot")),
    .create (.element (Element.named (some Namespace.html) "slot")),
    .setAttribute 2 "slot" "a", .setAttribute 5 "name" "a", .insert 1 2 none, .insert 1 3 none,
    .insert 4 5 none, .insert 4 6 none]

/-- The second slot takes the name of the first and moves before it. -/
def slotsSwapped : List Change :=
  [.setAttribute 6 "name" "a", .insert 4 6 (some 5)]

/-- Before the second slot takes the name and moves to the front each slot has a node, and then the
new first one has what the other one had. -/
theorem slotsAgree_of_changes_slotsSwapped :
    let t := slottedBox.foldl apply (Tree.empty .html)
    let t' := slotsSwapped.foldl apply t
    t.assignedNodes 5 = [2] ∧ t.assignedNodes 6 = [3] ∧ t'.assignedNodes 5 = [] ∧
      t'.assignedNodes 6 = [2] ∧ t'.SlotsAgree := by
  intro t t'
  have hempty := Proper.empty .html
  have ht : t.Proper := hempty.foldl (hempty.admits_of_insertsBare (by decide +kernel))
  have hchanges : Admits (fun t c => c.InRange t ∧ c.KeepsTrees t) t slotsSwapped :=
    ht.admits_of_insertsBare (by decide +kernel)
  exact ⟨by decide +kernel, by decide +kernel, by decide +kernel, by decide +kernel,
    slotsAgree_of_changes ht hchanges⟩

end Selectors.Tree

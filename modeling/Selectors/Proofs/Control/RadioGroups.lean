import Selectors.Proofs.Control.Names
import Selectors.Proofs.Query.States
import Selectors.Proofs.Tree.Runs

/-!
# Groups of radio buttons

Radio buttons of one tree that share a name and a form are one group: every member sees the same
group, so all members are indeterminate together, and what one of them demands all demand.  A group
is looked for below the root of the tree.  So there is one radio button that does not belong to the
group it sees: the root of a tree, if it has a name.

* `Tree.WellFormed.radioGroup_eq_of_mem` says that members see the same group, and
  `Tree.WellFormed.mem_radioGroup_self` which radio buttons are members of their own.
* `Tree.RadioGroups` collects what calls say of radio buttons, and `Tree.Proper.radioGroups` is the
  result.
-/

namespace Selectors

namespace TreeView

variable {t : TreeView} {r s : NodeId}

/-- Whether a node is a radio button. -/
def isRadio (t : TreeView) (n : NodeId) : Bool :=
  t.isInput n (· == .radio)

/-- Whether a node has a name that is not empty. -/
def isNamed (t : TreeView) (n : NodeId) : Bool :=
  !((t.attribute? n "name").getD "").isEmpty

/-- The name of a named radio button is that of its attribute. -/
theorem attribute?_of_isNamed (hr : t.isNamed r = true) :
    t.attribute? r "name" = some ((t.attribute? r "name").getD "") := by
  unfold isNamed at hr
  cases h : t.attribute? r "name" with
  | none => simp [h] at hr
  | some name => rfl

/-- A radio button without a name is alone in its group. -/
theorem radioGroup_of_not_named (hr : t.isNamed r = false) : t.radioGroup r = [r] := by
  unfold isNamed at hr
  exact if_pos (by simpa using hr)

/-- A radio button with a name sees those below the root of its tree with its name and its form. -/
theorem radioGroup_of_named (hr : t.isNamed r = true) : t.radioGroup r =
    (t.descendants (t.rootOf r)).filter fun m =>
      t.isRadio m && t.attribute? m "name" == t.attribute? r "name"
        && t.formOwner m == t.formOwner r := by
  rw [attribute?_of_isNamed hr]
  unfold isNamed at hr
  exact if_neg (by simpa using hr)

/-- Radio buttons of one name are named both. -/
theorem isNamed_congr (hname : t.attribute? s "name" = t.attribute? r "name") :
    t.isNamed s = t.isNamed r := by
  rw [isNamed, isNamed, hname]

/-! ### States of radio buttons -/

/-- A radio button is indeterminate where no member of its group is checked. -/
theorem isIndeterminate_of_isRadio (hr : t.isRadio r = true) :
    t.isIndeterminate r = !(t.radioGroup r).any t.isChecked := by
  have htype : t.inputType r = .radio := by
    simpa using (Bool.and_eq_true_iff.mp hr).2
  have hbox : t.isInput r (· == .checkbox) = false := by
    simp [isInput, htype]
  unfold isRadio at hr
  rw [isIndeterminate, hbox, hr, if_neg Bool.false_ne_true, if_pos rfl]

/-- A radio button that is asked is valid if its group does not demand one to be checked, or one
is. -/
theorem isValid?_of_isRadio (readers : Readers) (hr : t.isRadio r = true)
    (hasked : t.isCandidate r = true) :
    t.isValid? readers r = some (!(t.radioGroup r).any (fun m => t.hasAttribute m "required")
      || (t.radioGroup r).any t.isChecked) := by
  have hinput := isHtml_of_isInput hr
  have htype : t.inputType r = .radio := by
    simpa using (Bool.and_eq_true_iff.mp hr).2
  have hcontainer : (t.isHtml r "form" || t.isHtml r "fieldset") = false := by
    rw [isHtml_eq_false hinput (by decide), isHtml_eq_false hinput (by decide)]
    rfl
  unfold isValid? valid? satisfies inputSatisfies
  simp only [hcontainer, hasked, hinput, htype, Bool.false_eq_true, if_false, if_true]
  rfl

end TreeView

namespace Tree

variable {t : Tree} {r s : NodeId}

/-! ### Members -/

/-- **A radio button is a member of its own group**, unless it has a name and is the root of its
tree. -/
theorem WellFormed.mem_radioGroup_self (h : t.WellFormed) (hr : t.view.isRadio r = true) :
    r ∈ t.view.radioGroup r ↔ ¬(t.view.isNamed r = true ∧ t.parent r = none) := by
  cases hnamed : t.view.isNamed r with
  | false => simp [TreeView.radioGroup_of_not_named hnamed]
  | true =>
      rw [TreeView.radioGroup_of_named hnamed, h.view_descendants, List.mem_filter,
        h.mem_descendants]
      change t.Below r (t.rootOf r) ∧ _ ↔ _
      simp only [hr, beq_self_eq_true, Bool.and_self, and_true, true_and]
      constructor
      · intro hbelow hroot
        rw [h.rootOf_of_root hroot] at hbelow
        exact h.not_below_self r hbelow
      · intro hparent
        refine (h.eq_rootOf_or_below r).resolve_left fun heq => hparent ?_
        rw [heq]
        exact h.parent_rootOf r

/-- **Members see the same group**, and they are radio buttons. -/
theorem WellFormed.radioGroup_eq_of_mem (h : t.WellFormed) (hr : t.view.isRadio r = true)
    (hs : s ∈ t.view.radioGroup r) :
    t.view.isRadio s = true ∧ t.view.radioGroup s = t.view.radioGroup r := by
  cases hnamed : t.view.isNamed r with
  | false =>
      rw [TreeView.radioGroup_of_not_named hnamed, List.mem_singleton] at hs
      exact ⟨hs ▸ hr, by rw [hs]⟩
  | true =>
      rw [TreeView.radioGroup_of_named hnamed, h.view_descendants, List.mem_filter,
        h.mem_descendants] at hs
      obtain ⟨hbelow, hsees⟩ := hs
      simp only [Bool.and_eq_true, beq_iff_eq] at hsees
      obtain ⟨⟨hradio, hname⟩, hform⟩ := hsees
      have hroot : t.view.rootOf s = t.view.rootOf r := by
        refine (h.rootOf_of_below hbelow).trans ?_
        exact h.rootOf_of_root (h.parent_rootOf r)
      refine ⟨hradio, ?_⟩
      rw [TreeView.radioGroup_of_named hnamed,
        TreeView.radioGroup_of_named ((TreeView.isNamed_congr hname).trans hnamed), hroot, hname,
        hform]

/-! ### Result -/

/-- **What calls say of radio buttons**, where `verdict` are their answers. -/
structure RadioGroups (t : Tree) (verdict : String → NodeId → Except SelectorError Bool) :
    Prop where
  /-- A radio button is a member of its group unless it has a name and is the root of a tree. -/
  member : ∀ r, t.view.isRadio r = true →
    (r ∈ t.view.radioGroup r ↔ ¬(t.view.isNamed r = true ∧ t.parent r = none))
  /-- Members are radio buttons and have the same group. -/
  same : ∀ r s, t.view.isRadio r = true → s ∈ t.view.radioGroup r →
    t.view.isRadio s = true ∧ t.view.radioGroup s = t.view.radioGroup r
  /-- Members are indeterminate together. -/
  together : ∀ r s, t.view.isRadio r = true → s ∈ t.view.radioGroup r →
    ∃ b, verdict ":indeterminate" r = .ok b ∧ verdict ":indeterminate" s = .ok b
  /-- A checked radio button is indeterminate only if it is no member of its group, and no member is
  checked. -/
  checked : ∀ r, t.view.isRadio r = true → verdict ":checked" r = .ok true →
    (verdict ":indeterminate" r = .ok true ↔
      r ∉ t.view.radioGroup r ∧ ∀ s ∈ t.view.radioGroup r, verdict ":checked" s = .ok false)
  /-- Where no member is checked, a radio button that is asked is invalid if a member is required,
  such as itself. -/
  invalid : ∀ r, t.view.isRadio r = true → t.view.isCandidate r = true →
    (∀ s ∈ t.view.radioGroup r, verdict ":checked" s = .ok false) →
    (verdict ":invalid" r = .ok true ↔
      ∃ s ∈ t.view.radioGroup r, t.view.hasAttribute s "required" = true)

/-- **Every proper tree has groups of radio buttons.** -/
theorem Proper.radioGroups (ht : t.Proper) {e : Engine} (he : e.Reached) (settings : Settings) :
    t.RadioGroups (e.verdict t.view settings) := by
  have h := ht.wellFormed
  have helement {n : NodeId} (hn : t.view.isRadio n = true) : t.view.isElement n = true :=
    isElement_of_isHtml (TreeView.isHtml_of_isInput hn)
  have hchecked {n : NodeId} (hn : t.view.isRadio n = true) :
      e.verdict t.view settings ":checked" n = .ok (t.view.isChecked n) :=
    he.verdict_state settings .checked (helement hn)
  have hindeterminate {n : NodeId} (hn : t.view.isRadio n = true) :
      e.verdict t.view settings ":indeterminate" n =
        .ok (!(t.view.radioGroup n).any t.view.isChecked) := by
    rw [← TreeView.isIndeterminate_of_isRadio hn]
    exact he.verdict_state settings .indeterminate (helement hn)
  have hinvalid {n : NodeId} (hn : t.view.isRadio n = true) :
      e.verdict t.view settings ":invalid" n =
        .ok (t.view.isValid? settings.readers n == some false) :=
    he.verdict_state settings .invalid (helement hn)
  have hnone {r : NodeId} (hr : t.view.isRadio r = true) :
      (∀ s ∈ t.view.radioGroup r, e.verdict t.view settings ":checked" s = .ok false) ↔
        (t.view.radioGroup r).any t.view.isChecked = false := by
    rw [List.any_eq_false]
    refine forall₂_congr fun s hs => ?_
    rw [hchecked (h.radioGroup_eq_of_mem hr hs).1]
    simp
  refine ⟨fun r hr => h.mem_radioGroup_self hr, fun r s hr hs => h.radioGroup_eq_of_mem hr hs,
    fun r s hr hs => ?_, fun r hr hyes => ?_, fun r hr hasked hno => ?_⟩
  · obtain ⟨hradio, hgroup⟩ := h.radioGroup_eq_of_mem hr hs
    refine ⟨_, hindeterminate hr, ?_⟩
    rw [hindeterminate hradio, hgroup]
  · rw [hchecked hr] at hyes
    rw [hindeterminate hr, hnone hr]
    simp only [Except.ok.injEq, Bool.not_eq_true'] at hyes ⊢
    refine (and_iff_right_of_imp fun hno hself => ?_).symm
    exact absurd hyes (List.any_eq_false.mp hno r hself)
  · rw [hnone hr] at hno
    rw [hinvalid hr, TreeView.isValid?_of_isRadio settings.readers hr hasked, hno]
    simp

/-- A checked radio button with a name, alone, and a box with two more, of which one is required. -/
def buttons : List Change :=
  [.create (.element (Element.named (some Namespace.html) "input")),
    .setAttribute 1 "type" "radio", .setAttribute 1 "name" "x", .setAttribute 1 "checked" "",
    .create (.element (Element.named (some Namespace.html) "div")),
    .create (.element (Element.named (some Namespace.html) "input")),
    .setAttribute 3 "type" "radio", .setAttribute 3 "name" "y", .setAttribute 3 "required" "",
    .create (.element (Element.named (some Namespace.html) "input")),
    .setAttribute 4 "type" "radio", .setAttribute 4 "name" "y", .insert 2 3 none,
    .insert 2 4 none]

/-- The lone radio button is checked and indeterminate, and both others are invalid. -/
theorem radioGroups_buttons :
    let t := buttons.foldl apply (Tree.empty .html)
    let verdict := Engine.verdict {} t.view {}
    t.Proper ∧ t.view.radioGroup 1 = [] ∧ t.view.radioGroup 4 = [3, 4] ∧
      verdict ":checked" 1 = .ok true ∧ verdict ":indeterminate" 1 = .ok true ∧
      verdict ":invalid" 4 = .ok true ∧ t.RadioGroups verdict := by
  intro t verdict
  have hempty := Proper.empty .html
  have ht : t.Proper := hempty.foldl (hempty.admits_of_insertsBare (by decide +kernel))
  exact ⟨ht, by decide +kernel, by decide +kernel, by decide +kernel, by decide +kernel,
    by decide +kernel, Proper.radioGroups ht .new {}⟩

end Tree

end Selectors

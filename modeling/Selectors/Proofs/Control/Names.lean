import Selectors.Control.Value

/-!
# Names of HTML elements

An HTML element has one name, and only elements have names, so the kinds of controls exclude each
other.
-/

namespace Selectors

namespace TreeView

variable {t : TreeView} {n : NodeId}

theorem eq_of_isHtml {a b : String} (ha : t.isHtml n a = true) (hb : t.isHtml n b = true) :
    a = b := by
  rw [isHtml, beq_iff_eq] at ha hb
  exact Option.some.inj (ha.symm.trans hb)

theorem isHtml_eq_false {a b : String} (ha : t.isHtml n a = true) (hne : a ≠ b) :
    t.isHtml n b = false :=
  Bool.eq_false_iff.mpr fun hb => hne (eq_of_isHtml ha hb)

/-- An input is an element of that name. -/
theorem isHtml_of_isInput {p : InputType → Bool} (hinput : t.isInput n p = true) :
    t.isHtml n "input" = true :=
  (Bool.and_eq_true_iff.mp hinput).1

end TreeView

/-- An element is stored where the kind is that of elements. -/
theorem Tree.exists_element {t : Tree} {n : NodeId} (hn : t.view.isElement n = true) :
    ∃ e, t.element? n = some e := by
  change (t.kind n == .element) = true at hn
  unfold kind at hn
  unfold element?
  cases hdata : t.data? n with
  | none => simp [hdata] at hn
  | some data => cases data <;> simp [hdata] at hn ⊢

/-- An element of a name is an element. -/
theorem Tree.isElement_of_isHtml {t : Tree} {n : NodeId} {name : String}
    (hname : t.view.isHtml n name = true) : t.view.isElement n = true := by
  have hspace : t.view.space n = some Namespace.html := by
    refine Decidable.byContradiction fun hforeign => ?_
    rw [TreeView.isHtml, TreeView.htmlName?, if_neg hforeign] at hname
    cases hname
  change (t.element? n).bind Element.space = _ at hspace
  change (t.kind n == .element) = true
  unfold element? at hspace
  unfold kind
  cases hdata : t.data? n with
  | none => simp [hdata] at hspace
  | some data => cases data <;> simp [hdata] at hspace ⊢

end Selectors

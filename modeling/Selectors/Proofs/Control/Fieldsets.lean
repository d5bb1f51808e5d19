import Selectors.Proofs.Control.Names
import Selectors.Proofs.Query.States
import Selectors.Proofs.Tree.Ancestry
import Selectors.Proofs.Tree.Runs

/-!
# Disabled fieldsets

A disabled fieldset disables the controls below it, but for those inside of its first legend.  The
search goes up from a control and looks at one step at a time: where it comes to a disabled fieldset
it asks whether the child that it came from is the first legend.  What is inside of the legend of
one fieldset is below the others all the same, so that each fieldset decides for itself.

* `Tree.FirstLegend` and `Tree.DisabledBy` are said with children and ancestors alone.
* `Tree.WellFormed.outside_of_parent` is what one step up keeps, and
  `Tree.WellFormed.inDisabledFieldset_iff` what the whole search finds.
* `Tree.Proper.disabledByFieldsets` is the result for calls.
-/

namespace Selectors

namespace TreeView

variable {t : TreeView} {n : NodeId} {name : String}

/-- The elements of five names obey fieldsets. -/
theorem obeysFieldset_of_isHtml (hn : t.isHtml n name = true)
    (hname : name ∈ ["button", "input", "select", "textarea", "fieldset"]) :
    t.obeysFieldset n = true :=
  List.any_eq_true.mpr ⟨name, hname, hn⟩

/-- What obeys fieldsets is disabled by its own attribute or by a fieldset. -/
theorem isDisabled_of_obeysFieldset (hn : t.obeysFieldset n = true) :
    t.isDisabled n = (t.hasAttribute n "disabled" || t.inDisabledFieldset n) := by
  simp [isDisabled, hn]

/-- What obeys fieldsets is enabled or disabled. -/
theorem isEnabled_of_obeysFieldset (hn : t.obeysFieldset n = true) :
    t.isEnabled n = !t.isDisabled n := by
  simp [isEnabled, canBeDisabled, hn]

end TreeView

namespace Tree

variable {t : Tree} {n p f l : NodeId}

/-! ### Legends -/

/-- The first legend among the children of a node. -/
def FirstLegend (t : Tree) (f l : NodeId) : Prop :=
  ∃ before after, t.children f = before ++ l :: after ∧ t.view.isHtml l "legend" = true ∧
    ∀ c ∈ before, t.view.isHtml c "legend" = false

/-- Only elements are legends, so that other children do not count. -/
theorem WellFormed.firstLegend?_eq_some_iff (h : t.WellFormed) :
    t.view.firstLegend? f = some l ↔ t.FirstLegend f l := by
  have hlegend : ∀ c, decide (t.view.isElement c = true ∧ t.view.isHtml c "legend" = true) =
      t.view.isHtml c "legend" := by
    intro c
    cases hc : t.view.isHtml c "legend" with
    | false => simp
    | true => simp [isElement_of_isHtml hc]
  rw [TreeView.firstLegend?, TreeView.elementChildren, h.view_children, List.find?_filter]
  simp only [hlegend, List.find?_eq_some_iff_append, Bool.not_eq_true', FirstLegend]
  grind

/-- The first legend is a child of its fieldset. -/
theorem FirstLegend.parent (h : t.WellFormed) (hl : t.FirstLegend f l) : t.parent l = some f := by
  obtain ⟨before, after, hchildren, -⟩ := hl
  rw [← h.mem_children, hchildren]
  exact List.mem_append_right before List.mem_cons_self

/-! ### Fieldsets -/

/-- A node stands outside of the first legend of `f`, if that has one. -/
def OutsideLegend (t : Tree) (n f : NodeId) : Prop :=
  ∀ l, t.FirstLegend f l → n ≠ l ∧ ¬ t.Below n l

/-- A fieldset disables what stands below it, unless that stands inside of its first legend. -/
structure DisabledBy (t : Tree) (n f : NodeId) : Prop where
  below : t.Below n f
  fieldset : t.view.isHtml f "fieldset" = true
  disabled : t.view.hasAttribute f "disabled" = true
  outside : ∀ l, t.FirstLegend f l → ¬ t.Below n l

/-- A child is inside of its parent's first legend only as that legend. -/
theorem WellFormed.outside_parent_iff (h : t.WellFormed) (hp : t.parent n = some p) :
    t.OutsideLegend n p ↔ ¬ t.FirstLegend p n := by
  constructor
  · intro hout hn
    exact (hout n hn).1 rfl
  · intro hn l hl
    refine ⟨fun heq => hn (heq ▸ hl), fun hbelow => ?_⟩
    have hlp : t.Below l p := .single (hl.parent h)
    rcases (below_iff_of_parent hp).mp hbelow with rfl | hpl
    · exact h.not_below_self p hlp
    · exact h.not_below_self l (hlp.trans hpl)

/-- **One step up** from a node below `f` leads out of the legend of `f` exactly if it begins
outside.  The legend has another parent than the node. -/
theorem WellFormed.outside_of_parent (h : t.WellFormed) (hp : t.parent n = some p)
    (hpf : t.Below p f) : t.OutsideLegend n f ↔ t.OutsideLegend p f := by
  refine forall₂_congr fun l hl => ?_
  have hne : n ≠ l := by
    rintro rfl
    obtain rfl : p = f := Option.some.inj (hp.symm.trans (hl.parent h))
    exact h.not_below_self p hpf
  rw [below_iff_of_parent hp, not_or, and_iff_right hne]

/-- The search makes one step and goes on from the parent. -/
theorem WellFormed.inDisabledFieldset_of_parent (h : t.WellFormed) (hp : t.parent n = some p) :
    t.view.inDisabledFieldset n = true ↔
      (t.view.isHtml p "fieldset" = true ∧ t.view.hasAttribute p "disabled" = true ∧
        t.OutsideLegend n p) ∨ t.view.inDisabledFieldset p = true := by
  have hancestors : t.view.ancestors n = p :: t.view.ancestors p := h.ancestors_of_parent hp
  rw [h.outside_parent_iff hp, ← h.firstLegend?_eq_some_iff, TreeView.inDisabledFieldset,
    hancestors, TreeView.disabledFrom, ← TreeView.inDisabledFieldset]
  simp [and_assoc]

/-- **The search finds a disabled fieldset** exactly if there is one above the node that does not
hold it in its first legend. -/
theorem WellFormed.inDisabledFieldset_iff (h : t.WellFormed) (n : NodeId) :
    t.view.inDisabledFieldset n = true ↔ ∃ f, t.Below n f ∧ t.view.isHtml f "fieldset" = true ∧
      t.view.hasAttribute f "disabled" = true ∧ t.OutsideLegend n f := by
  induction n using h.upward with
  | root n hp =>
      have hnone : t.view.inDisabledFieldset n = false := by
        have hancestors : t.view.ancestors n = [] := h.ancestors_of_root hp
        rw [TreeView.inDisabledFieldset, hancestors, TreeView.disabledFrom]
      have htop : ∀ f, ¬ t.Below n f := by
        intro f hf
        rw [← h.mem_ancestors, h.ancestors_of_root hp] at hf
        exact List.not_mem_nil hf
      simp [hnone, htop]
  | child n p hp ih =>
      rw [h.inDisabledFieldset_of_parent hp, ih]
      constructor
      · rintro (hparent | ⟨f, hpf, hfieldset, hdisabled, hout⟩)
        · exact ⟨p, .single hp, hparent⟩
        · exact ⟨f, (below_iff_of_parent hp).mpr (Or.inr hpf), hfieldset, hdisabled,
            (h.outside_of_parent hp hpf).mpr hout⟩
      · rintro ⟨f, hnf, hfieldset, hdisabled, hout⟩
        rcases (below_iff_of_parent hp).mp hnf with rfl | hpf
        · exact Or.inl ⟨hfieldset, hdisabled, hout⟩
        · exact Or.inr ⟨f, hpf, hfieldset, hdisabled, (h.outside_of_parent hp hpf).mp hout⟩

/-- A control is no legend, and so it is inside of one only below it. -/
theorem WellFormed.inDisabledFieldset_iff_disabledBy (h : t.WellFormed) {name : String}
    (hn : t.view.isHtml n name = true) (hname : name ≠ "legend") :
    t.view.inDisabledFieldset n = true ↔ ∃ f, t.DisabledBy n f := by
  rw [h.inDisabledFieldset_iff]
  refine exists_congr fun f => ⟨?_, ?_⟩
  · rintro ⟨hbelow, hfieldset, hdisabled, hout⟩
    exact ⟨hbelow, hfieldset, hdisabled, fun l hl => (hout l hl).2⟩
  · rintro ⟨hbelow, hfieldset, hdisabled, hout⟩
    refine ⟨hbelow, hfieldset, hdisabled, fun l hl => ⟨?_, hout l hl⟩⟩
    rintro rfl
    obtain ⟨-, -, -, hlegend, -⟩ := hl
    exact hname (TreeView.eq_of_isHtml hn hlegend)

/-! ### Result -/

/-- **A control is disabled by itself or by a fieldset**, and otherwise it is enabled. -/
theorem Proper.disabledByFieldsets (ht : t.Proper) {e : Engine} (he : e.Reached)
    (settings : Settings) {name : String} (hn : t.view.isHtml n name = true)
    (hname : name ∈ ["button", "input", "select", "textarea", "fieldset"]) :
    ∃ b, e.verdict t.view settings ":disabled" n = .ok b ∧
      e.verdict t.view settings ":enabled" n = .ok (!b) ∧
      (b = true ↔ t.view.hasAttribute n "disabled" = true ∨ ∃ f, t.DisabledBy n f) := by
  have hobeys := TreeView.obeysFieldset_of_isHtml hn hname
  have hlegend : name ≠ "legend" := by
    rintro rfl
    revert hname
    decide
  have hdisabled : e.verdict t.view settings ":disabled" n = .ok (t.view.isDisabled n) :=
    he.verdict_state settings .disabled (isElement_of_isHtml hn)
  have henabled : e.verdict t.view settings ":enabled" n = .ok (t.view.isEnabled n) :=
    he.verdict_state settings .enabled (isElement_of_isHtml hn)
  refine ⟨t.view.isDisabled n, hdisabled, ?_, ?_⟩
  · rw [henabled, TreeView.isEnabled_of_obeysFieldset hobeys]
  · rw [TreeView.isDisabled_of_obeysFieldset hobeys, Bool.or_eq_true,
      ht.wellFormed.inDisabledFieldset_iff_disabledBy hn hlegend]

/-- A disabled fieldset inside of the legend of another.  It holds a control, and a legend with one
more. -/
def fieldsets : List Change :=
  [.create (.element (Element.named (some Namespace.html) "fieldset")),
    .setAttribute 1 "disabled" "",
    .create (.element (Element.named (some Namespace.html) "legend")),
    .create (.element (Element.named (some Namespace.html) "fieldset")),
    .setAttribute 3 "disabled" "",
    .create (.element (Element.named (some Namespace.html) "input")),
    .create (.element (Element.named (some Namespace.html) "legend")),
    .create (.element (Element.named (some Namespace.html) "button")),
    .insert 1 2 none, .insert 2 3 none, .insert 3 4 none, .insert 3 5 none, .insert 5 6 none]

/-- The inner fieldset disables its control, though the legend spares it from the outer one, and the
button in the inner legend is spared from both. -/
theorem disabledByFieldsets_fieldsets :
    let t := fieldsets.foldl apply (Tree.empty .html)
    t.Proper ∧ t.view.isHtml 4 "input" = true ∧ t.view.isHtml 6 "button" = true ∧
      (∃ f, t.DisabledBy 4 f) ∧ ¬∃ f, t.DisabledBy 6 f := by
  intro t
  have hempty := Proper.empty .html
  have ht : t.Proper := hempty.foldl (hempty.admits_of_insertsBare (by decide +kernel))
  have hinput : t.view.isHtml 4 "input" = true := by
    decide +kernel
  have hbutton : t.view.isHtml 6 "button" = true := by
    decide +kernel
  have hyes : Engine.verdict {} t.view {} ":disabled" 4 = .ok true := by
    decide +kernel
  have hno : Engine.verdict {} t.view {} ":disabled" 6 = .ok false := by
    decide +kernel
  obtain ⟨b, hb, -, hinner⟩ := Proper.disabledByFieldsets ht .new {} hinput (by decide)
  obtain ⟨b', hb', -, hspared⟩ := Proper.disabledByFieldsets ht .new {} hbutton (by decide)
  obtain rfl : true = b := Except.ok.inj (hyes.symm.trans hb)
  obtain rfl : false = b' := Except.ok.inj (hno.symm.trans hb')
  refine ⟨ht, hinput, hbutton, (hinner.mp rfl).resolve_left ?_, fun hf => ?_⟩
  · decide +kernel
  · exact Bool.false_ne_true (hspared.mpr (Or.inr hf))

end Tree

end Selectors

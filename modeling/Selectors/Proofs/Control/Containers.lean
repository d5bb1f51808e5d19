import Selectors.Proofs.Control.Names
import Selectors.Proofs.Query.States
import Selectors.Proofs.Tree.Runs

/-!
# Validity of forms and fieldsets

A form or a fieldset asks the controls below it whether they are valid, those inside of further
forms and fieldsets among them, and does not ask these.  Since each of these is invalid exactly if a
control below it is, the answer is that of `:has(:invalid)`, which asks all elements.

Nothing here depends on what a control checks, such as how addresses and patterns are read:
`TreeView.validBy` has any test of controls in its place.

* `TreeView.run_valid?` says that validity is `validBy` with the test that the attributes make.
* `Tree.WellFormed.validBy_of_isContainer` is the result for any test, and
  `Tree.Proper.validityFromInside` the one for calls.
-/

namespace Selectors

namespace TreeView

variable {t : TreeView} {n : NodeId} {holds : NodeId → Bool}

/-- Whether an element is valid by what it contains. -/
def isContainer (t : TreeView) (n : NodeId) : Bool :=
  t.isHtml n "form" || t.isHtml n "fieldset"

/-- Whether an element is valid, if the question is asked of it, where `holds` tests one control. -/
def validBy (t : TreeView) (holds : NodeId → Bool) (n : NodeId) : Option Bool :=
  if t.isContainer n then some !(t.elementsBelow n).any fun x => t.isCandidate x && !holds x
  else if t.isCandidate n then some (holds n)
  else none

/-- Validity is decided control by control, whatever ways of reading are given. -/
theorem run_valid? (t : TreeView) (readers : Readers) (read : String → Id (Option PatternTest))
    (n : NodeId) :
    (t.valid? readers read n).run = t.validBy (fun x => (t.satisfies readers read x).run) n := by
  have hcontrol : t.isInvalidControl readers read = fun x =>
      Pure.pure (t.isCandidate x && !(t.satisfies readers read x).run) := by
    funext x
    unfold isInvalidControl
    cases t.isCandidate x with
    | false => rfl
    | true => rfl
  unfold valid? validBy isContainer
  rw [hcontrol, List.anyM_pure]
  split
  · rfl
  split
  · rfl
  · rfl

/-- The state is decided control by control too. -/
theorem isValid?_eq_validBy (t : TreeView) (readers : Readers) (n : NodeId) :
    t.isValid? readers n = t.validBy (fun x => (t.satisfies readers readers.readAnew x).run) n :=
  t.run_valid? readers readers.readAnew n

/-- Containers are no controls, and so they are not asked themselves. -/
theorem isCandidate_of_isContainer (hn : t.isContainer n = true) : t.isCandidate n = false := by
  have hnames : ∀ name ∈ ["input", "textarea", "select", "button"], t.isHtml n name = false := by
    intro name hmem
    rcases Bool.or_eq_true_iff.mp hn with hform | hfieldset
    · refine isHtml_eq_false hform ?_
      rintro rfl
      revert hmem
      decide
    · refine isHtml_eq_false hfieldset ?_
      rintro rfl
      revert hmem
      decide
  simp [isCandidate, canBeCandidate, hnames]

/-- A candidate is valid if the check of its value holds. -/
theorem validBy_of_isCandidate (hn : t.isCandidate n = true) :
    t.validBy holds n = some (holds n) := by
  have hcontainer : t.isContainer n = false := by
    refine Bool.eq_false_iff.mpr fun hcontainer => ?_
    rw [isCandidate_of_isContainer hcontainer] at hn
    cases hn
  rw [validBy, hcontainer, if_neg Bool.false_ne_true, if_pos hn]

/-- A container answers, and it is invalid exactly if a control below is asked and fails. -/
theorem validBy_of_isContainer (hn : t.isContainer n = true) :
    t.validBy holds n =
      some !(t.elementsBelow n).any fun x => t.isCandidate x && !holds x := by
  rw [validBy, if_pos hn]

end TreeView

namespace Tree

variable {t : Tree} {f : NodeId}

/-- Elements that are invalid are controls or contain one. -/
theorem exists_of_validBy_eq_some_false {x : NodeId} {holds : NodeId → Bool}
    (hx : t.view.validBy holds x = some false) :
    (t.view.isCandidate x = true ∧ holds x = false) ∨
      ∃ y ∈ t.view.elementsBelow x, t.view.isCandidate y = true ∧ holds y = false := by
  cases hcontainer : t.view.isContainer x with
  | true =>
      rw [TreeView.validBy_of_isContainer hcontainer] at hx
      right
      simpa using hx
  | false =>
      left
      rw [TreeView.validBy, hcontainer, if_neg Bool.false_ne_true] at hx
      grind

/-- **A container is invalid exactly if an element below it is**, for any test of controls. -/
theorem WellFormed.validBy_of_isContainer (h : t.WellFormed) (holds : NodeId → Bool)
    (hf : t.view.isContainer f = true) :
    t.view.validBy holds f =
      some !(t.view.elementsBelow f).any fun x => t.view.validBy holds x == some false := by
  rw [TreeView.validBy_of_isContainer hf]
  refine congrArg (fun b => some !b) ?_
  rw [Bool.eq_iff_iff]
  simp only [List.any_eq_true, Bool.and_eq_true, Bool.not_eq_true', beq_iff_eq]
  constructor
  · rintro ⟨x, hx, hasked, hfails⟩
    exact ⟨x, hx, by rw [TreeView.validBy_of_isCandidate hasked, hfails]⟩
  · rintro ⟨x, hx, hinvalid⟩
    rcases exists_of_validBy_eq_some_false hinvalid with hcontrol | ⟨y, hy, hcontrol⟩
    · exact ⟨x, hx, hcontrol⟩
    · obtain ⟨-, hxf⟩ := (Matcher.mem_elementsBelow h).mp hx
      obtain ⟨helement, hyx⟩ := (Matcher.mem_elementsBelow h).mp hy
      exact ⟨y, (Matcher.mem_elementsBelow h).mpr ⟨helement, hyx.trans hxf⟩, hcontrol⟩

/-! ### Result -/

/-- **Forms and fieldsets are invalid where they have something invalid inside**, and valid
otherwise.  Calls say so with any readers of patterns and addresses, which are among the settings.
However these are read, validity comes from a test of single controls, and for any test the same
holds. -/
theorem Proper.validityFromInside (ht : t.Proper) {e : Engine} (he : e.Reached)
    (settings : Settings) (hf : t.view.isHtml f "form" = true ∨ t.view.isHtml f "fieldset" = true) :
    (∃ b, e.verdict t.view settings ":invalid" f = .ok b ∧
      e.verdict t.view settings ":has(:invalid)" f = .ok b ∧
      e.verdict t.view settings ":valid" f = .ok (!b)) ∧
    (∀ (readers : Readers) (read : String → Id (Option PatternTest)) (n : NodeId),
      (t.view.valid? readers read n).run =
        t.view.validBy (fun x => (t.view.satisfies readers read x).run) n) ∧
    ∀ holds, t.view.validBy holds f = some
      !(t.view.elementsBelow f).any fun x => t.view.validBy holds x == some false := by
  have h := ht.wellFormed
  have hcontainer : t.view.isContainer f = true := Bool.or_eq_true_iff.mpr hf
  have helement : t.view.isElement f = true := by
    rcases hf with hform | hfieldset
    · exact isElement_of_isHtml hform
    · exact isElement_of_isHtml hfieldset
  refine ⟨?_, t.view.run_valid?, fun holds => h.validBy_of_isContainer holds hcontainer⟩
  let state := t.view.isValid? settings.readers
  let inside := (t.view.elementsBelow f).any fun x => state x == some false
  have hvalid : state f = some !inside := by
    simp only [inside, state, TreeView.isValid?_eq_validBy]
    exact h.validBy_of_isContainer _ hcontainer
  have hinvalid : e.verdict t.view settings ":invalid" f = .ok (state f == some false) :=
    he.verdict_state settings .invalid helement
  have hvalid' : e.verdict t.view settings ":valid" f = .ok (state f == some true) :=
    he.verdict_state settings .valid helement
  refine ⟨inside, ?_, he.verdict_stateBelow h settings .invalid helement, ?_⟩
  · rw [hinvalid, hvalid]
    cases inside <;> rfl
  · rw [hvalid', hvalid]
    cases inside <;> rfl

/-- A form with a fieldset. In that are a control that has to be filled in, a disabled fieldset with
another, and a list of suggestions with a third. -/
def fields : List Change :=
  [.create (.element (Element.named (some Namespace.html) "form")),
    .create (.element (Element.named (some Namespace.html) "fieldset")),
    .create (.element (Element.named (some Namespace.html) "input")),
    .setAttribute 3 "required" "",
    .create (.element (Element.named (some Namespace.html) "fieldset")),
    .setAttribute 4 "disabled" "",
    .create (.element (Element.named (some Namespace.html) "input")),
    .setAttribute 5 "required" "",
    .create (.element (Element.named (some Namespace.html) "datalist")),
    .create (.element (Element.named (some Namespace.html) "input")),
    .setAttribute 7 "required" "",
    .insert 1 2 none, .insert 2 3 none, .insert 2 4 none, .insert 4 5 none, .insert 2 6 none,
    .insert 6 7 none]

/-- The first control makes the form and its fieldset invalid; the disabled fieldset is valid. -/
theorem validityFromInside_fields :
    let t := fields.foldl apply (Tree.empty .html)
    let verdict := Engine.verdict {} t.view {}
    t.Proper ∧ t.view.elementsBelow 1 = [2, 3, 4, 5, 6, 7] ∧
      verdict ":has(:invalid)" 1 = .ok true ∧ verdict ":valid" 1 = .ok false ∧
      verdict ":has(:invalid)" 4 = .ok false ∧ verdict ":valid" 4 = .ok true := by
  intro t verdict
  have hempty := Proper.empty .html
  have ht : t.Proper := hempty.foldl (hempty.admits_of_insertsBare (by decide +kernel))
  have hform : t.view.isHtml 1 "form" = true := by
    decide +kernel
  have hfieldset : t.view.isHtml 4 "fieldset" = true := by
    decide +kernel
  have hinvalid : verdict ":invalid" 1 = .ok true := by
    decide +kernel
  have hnot : verdict ":invalid" 4 = .ok false := by
    decide +kernel
  obtain ⟨⟨b, hb, hhas, hvalid⟩, -, -⟩ := Proper.validityFromInside ht .new {} (Or.inl hform)
  obtain ⟨⟨b', hb', hhas', hvalid'⟩, -, -⟩ :=
    Proper.validityFromInside ht .new {} (Or.inr hfieldset)
  obtain rfl : true = b := Except.ok.inj (hinvalid.symm.trans hb)
  obtain rfl : false = b' := Except.ok.inj (hnot.symm.trans hb')
  exact ⟨ht, by decide +kernel, hhas, hvalid, hhas', hvalid'⟩

end Tree

end Selectors

import Selectors.Proofs.Control.Names
import Selectors.Proofs.Query.States
import Selectors.Proofs.Tree.Positions
import Selectors.Proofs.Tree.Runs
import Selectors.Proofs.Tree.Walks

/-!
# Lists of options that show one

An option looks up for its list, and a list looks down for its options.  Both see at most one group
between them, so they find each other, and all options of a list agree on which of them is selected.
In a list that shows one option at a time that is the last one that is to be selected, or where none
is, the first one that is not disabled.

* `Tree.WellFormed.mem_optionsOf_iff` says that the two searches are inverse to each other, and
  `Tree.WellFormed.optionsOf_sublist` that a list has its options in tree order.
* `Tree.WellFormed.chosenOption_eq_some_iff` tells the option that is shown.
* `Tree.ShowsOne` collects what calls say of the options of a list, and `Tree.Proper.showsOne` is
  the result.
-/

namespace Selectors

/-! ### First and last of a row -/

section row

variable {α : Type} {lt : α → α → Prop} {l : List α} {p : α → Bool} {a : α}

theorem find?_eq_some_iff_of_pairwise (hasymm : ∀ a b, lt a b → ¬ lt b a) (hl : l.Pairwise lt) :
    l.find? p = some a ↔ a ∈ l ∧ p a = true ∧ ∀ b ∈ l, p b = true → a = b ∨ lt a b := by
  have hleast : ∀ {a}, l.find? p = some a →
      a ∈ l ∧ p a = true ∧ ∀ b ∈ l, p b = true → a = b ∨ lt a b := by
    intro a hfind
    obtain ⟨ha, before, after, rfl, hbefore⟩ := List.find?_eq_some_iff_append.mp hfind
    refine ⟨by simp, ha, fun b hb hpb => ?_⟩
    rw [List.mem_append, List.mem_cons] at hb
    rcases hb with hb | rfl | hb
    · exact absurd hpb (by simpa using hbefore b hb)
    · exact Or.inl rfl
    · exact Or.inr ((List.pairwise_cons.mp (List.pairwise_append.mp hl).2.1).1 b hb)
  refine ⟨hleast, fun ⟨ha, hpa, hmin⟩ => ?_⟩
  obtain ⟨c, hfind⟩ := Option.isSome_iff_exists.mp (List.find?_isSome.mpr ⟨a, ha, hpa⟩)
  obtain ⟨hc, hpc, hmin'⟩ := hleast hfind
  rcases hmin c hc hpc with rfl | hac
  · exact hfind
  · rcases hmin' a ha hpa with rfl | hca
    · exact hfind
    · exact absurd hca (hasymm a c hac)

/-- In an increasing row the last that passes a test is the greatest. -/
theorem find?_reverse_eq_some_iff_of_pairwise (hasymm : ∀ a b, lt a b → ¬ lt b a)
    (hl : l.Pairwise lt) :
    l.reverse.find? p = some a ↔ a ∈ l ∧ p a = true ∧ ∀ b ∈ l, p b = true → a = b ∨ lt b a := by
  rw [find?_eq_some_iff_of_pairwise (fun a b hba hab => hasymm a b hab hba)
    (List.pairwise_reverse.mpr hl)]
  simp only [List.mem_reverse]

end row

namespace TreeView

variable {t : TreeView} {o s : NodeId}

/-- A list is the parent of its option, or of the group that the option is in. -/
theorem owningSelect_eq_some_iff : t.owningSelect o = some s ↔
    t.isHtml s "select" = true ∧ (t.parent o = some s ∨
      ∃ g, t.parent o = some g ∧ t.isHtml g "optgroup" = true ∧ t.parent g = some s) := by
  unfold owningSelect
  cases hparent : t.parent o with
  | none => simp
  | some p =>
      simp only [Option.bind_some, Option.some.injEq, exists_eq_left']
      split
      · next hselect =>
          have hgroup := isHtml_eq_false hselect (b := "optgroup") (by decide)
          simp only [Option.some.injEq, hgroup, Bool.false_eq_true, false_and, or_false]
          exact ⟨fun hps => ⟨hps ▸ hselect, hps⟩, And.right⟩
      · next hselect =>
          have hps : t.isHtml s "select" = true → p ≠ s := fun hs hps => hselect (hps ▸ hs)
          split
          · next hgroup =>
              simp only [Option.filter_eq_some_iff, hgroup, true_and]
              grind
          · next hgroup => grind

/-- A list shows one option at a time unless it says that it shows more. -/
theorem selectsOne_iff : t.selectsOne s = true ↔
    t.hasAttribute s "multiple" = false ∧ ∀ text size, t.attribute? s "size" = some text →
      boundedNumber? (Nat.pow 2 32 - 1) text = some size → size ≤ 1 := by
  rw [selectsOne, Bool.and_eq_true, Bool.not_eq_true', Option.all_eq_true]
  simp only [Option.bind_eq_some_iff, decide_eq_true_eq]
  grind

/-- An option is to be selected if the user says so, or else its attribute. -/
theorem asksSelection_iff : t.asksSelection o = true ↔ (t.live o).selected = some true ∨
    (t.live o).selected = none ∧ t.hasAttribute o "selected" = true := by
  unfold asksSelection
  cases (t.live o).selected with
  | none => simp
  | some b => simp

/-- An option is disabled by itself or by its group. -/
theorem isDisabled_iff_of_isOption (ho : t.isHtml o "option" = true) :
    t.isDisabled o = true ↔ t.hasAttribute o "disabled" = true ∨ ∃ g, t.parent o = some g ∧
      t.isHtml g "optgroup" = true ∧ t.hasAttribute g "disabled" = true := by
  have hfieldset : t.obeysFieldset o = false := by
    simp [obeysFieldset, isHtml_eq_false ho]
  have hgroup : t.isHtml o "optgroup" = false := isHtml_eq_false ho (by decide)
  simp [isDisabled, inDisabledGroup, hfieldset, hgroup, ho, Option.any_eq_true]

/-- An option of a list that shows one is checked exactly if it is that one. -/
theorem isChecked_iff_chosenOption (ho : t.isHtml o "option" = true)
    (hs : t.owningSelect o = some s) (hone : t.selectsOne s = true) :
    t.isChecked o = true ↔ t.chosenOption s = some o := by
  have hinput : t.isInput o InputType.isCheckable = false := by
    simp [isInput, isHtml_eq_false ho]
  simp [isChecked, hinput, ho, isSelected, hs, hone]

end TreeView

namespace Tree

variable {t : Tree} {o s : NodeId}

/-! ### The two searches -/

/-- Only elements have names. -/
theorem WellFormed.mem_elementChildren_of_isHtml (h : t.WellFormed) {p c : NodeId} {name : String}
    (hc : t.view.isHtml c name = true) :
    c ∈ t.view.elementChildren p ↔ t.parent c = some p :=
  h.mem_elementChildren.trans (and_iff_left (isElement_of_isHtml hc))

/-- The options of a list stand in the list, or in a group that does. -/
theorem WellFormed.mem_optionsOf (h : t.WellFormed) :
    o ∈ t.view.optionsOf s ↔ t.view.isHtml o "option" = true ∧ (t.parent o = some s ∨
      ∃ g, t.parent o = some g ∧ t.view.isHtml g "optgroup" = true ∧ t.parent g = some s) := by
  rw [TreeView.optionsOf, List.mem_flatMap]
  constructor
  · rintro ⟨c, hc, ho⟩
    split at ho
    · next hoption =>
        obtain rfl := List.mem_singleton.mp ho
        exact ⟨hoption, Or.inl ((h.mem_elementChildren_of_isHtml hoption).mp hc)⟩
    · split at ho
      · next hgroup =>
          obtain ⟨ho, hoption⟩ := List.mem_filter.mp ho
          exact ⟨hoption, Or.inr ⟨c, (h.mem_elementChildren_of_isHtml hoption).mp ho, hgroup,
            (h.mem_elementChildren_of_isHtml hgroup).mp hc⟩⟩
      · cases ho
  · rintro ⟨hoption, hs | ⟨g, hg, hgroup, hs⟩⟩
    · refine ⟨o, (h.mem_elementChildren_of_isHtml hoption).mpr hs, ?_⟩
      rw [if_pos hoption]
      exact List.mem_singleton_self o
    · refine ⟨g, (h.mem_elementChildren_of_isHtml hgroup).mpr hs, ?_⟩
      rw [TreeView.isHtml_eq_false hgroup (by decide), if_neg Bool.false_ne_true, if_pos hgroup]
      exact List.mem_filter.mpr ⟨(h.mem_elementChildren_of_isHtml hoption).mpr hg, hoption⟩

/-- **An option is among the options of a list exactly if the list is the one it belongs to.** -/
theorem WellFormed.mem_optionsOf_iff (h : t.WellFormed) (hs : t.view.isHtml s "select" = true) :
    o ∈ t.view.optionsOf s ↔
      t.view.isHtml o "option" = true ∧ t.view.owningSelect o = some s := by
  rw [h.mem_optionsOf, TreeView.owningSelect_eq_some_iff, and_iff_right hs]
  rfl

/-- **A list has its options in tree order.**  What each child adds is part of the listing of its
subtree. -/
theorem WellFormed.optionsOf_sublist (h : t.WellFormed) (s : NodeId) :
    (t.view.optionsOf s).Sublist (t.descendants s) := by
  rw [h.descendants_eq]
  refine ((h.elementChildren_sublist s).flatMap _).trans ?_
  refine List.Sublist.flatMap_right _ fun c _ => ?_
  rw [h.subtree_eq_cons]
  split
  · exact (List.nil_sublist _).cons_cons c
  · split
    · have hgroup : (t.view.optionChildren c).Sublist (t.children c) :=
        List.filter_sublist.trans (h.elementChildren_sublist c)
      exact (hgroup.trans (h.children_sublist (Or.inl rfl))).cons c
    · exact List.nil_sublist _

/-- The options of a select are in document order. -/
theorem WellFormed.pairwise_optionsOf (h : t.WellFormed) (s : NodeId) :
    (t.view.optionsOf s).Pairwise t.Precedes :=
  (h.pairwise_descendants s).sublist (h.optionsOf_sublist s)

/-! ### The option that is shown -/

/-- The option is the last of a list that is to be selected. -/
def LastAsked (t : Tree) (s o : NodeId) : Prop :=
  o ∈ t.view.optionsOf s ∧ t.view.asksSelection o = true ∧
    ∀ a ∈ t.view.optionsOf s, t.view.asksSelection a = true → o = a ∨ t.Precedes a o

/-- The option is the first of a list that is not disabled. -/
def FirstEnabled (t : Tree) (s o : NodeId) : Prop :=
  o ∈ t.view.optionsOf s ∧ t.view.isDisabled o = false ∧
    ∀ a ∈ t.view.optionsOf s, t.view.isDisabled a = false → o = a ∨ t.Precedes o a

/-- **The option that is shown is the last that is to be**, or where none is, the first that is not
disabled. -/
theorem WellFormed.chosenOption_eq_some_iff (h : t.WellFormed) :
    t.view.chosenOption s = some o ↔ t.LastAsked s o ∨
      (∀ a ∈ t.view.optionsOf s, t.view.asksSelection a = false) ∧ t.FirstEnabled s o := by
  have hasymm : ∀ a b, t.Precedes a b → ¬ t.Precedes b a := fun a b hab hba =>
    h.not_precedes_self a (h.precedes_trans hab hba)
  have hrow := h.pairwise_optionsOf s
  rw [TreeView.chosenOption, Option.or_eq_some_iff,
    find?_reverse_eq_some_iff_of_pairwise hasymm hrow,
    find?_eq_some_iff_of_pairwise hasymm hrow, List.find?_eq_none]
  simp only [List.mem_reverse, Bool.not_eq_true, Bool.not_eq_true']
  rfl

/-- An option is chosen if one asks for it, or if one is not disabled. -/
theorem isSome_chosenOption_iff : (t.view.chosenOption s).isSome = true ↔
    ∃ o ∈ t.view.optionsOf s, t.view.asksSelection o = true ∨ t.view.isDisabled o = false := by
  rw [TreeView.chosenOption, Option.isSome_or, Bool.or_eq_true, List.find?_isSome,
    List.find?_isSome]
  simp only [List.mem_reverse, Bool.not_eq_true']
  grind

/-! ### Result -/

/-- **What calls say of the options of a list that shows one**, where `verdict` are their answers.
-/
structure ShowsOne (t : Tree) (verdict : String → NodeId → Except SelectorError Bool)
    (s : NodeId) : Prop where
  /-- The options of the list are those that it is the list of. -/
  members : ∀ o, o ∈ t.view.optionsOf s ↔
    t.view.isHtml o "option" = true ∧ t.view.owningSelect o = some s
  /-- An option belongs to the list that is its parent, or the parent of its group. -/
  belongs : ∀ o, t.view.owningSelect o = some s ↔ t.parent o = some s ∨
    ∃ g, t.parent o = some g ∧ t.view.isHtml g "optgroup" = true ∧ t.parent g = some s
  /-- They are in tree order, each once. -/
  inTreeOrder : (t.view.optionsOf s).Sublist (t.descendants s)
  /-- A disabled option is so by itself or by its group. -/
  disabled : ∀ o ∈ t.view.optionsOf s, t.view.isDisabled o = true ↔
    t.view.hasAttribute o "disabled" = true ∨ ∃ g, t.parent o = some g ∧
      t.view.isHtml g "optgroup" = true ∧ t.view.hasAttribute g "disabled" = true
  /-- An option is to be selected if the user says so, or else its attribute. -/
  asked : ∀ o ∈ t.view.optionsOf s, t.view.asksSelection o = true ↔
    (t.view.live o).selected = some true ∨
      (t.view.live o).selected = none ∧ t.view.hasAttribute o "selected" = true
  answers : ∀ o ∈ t.view.optionsOf s, ∃ b, verdict ":checked" o = .ok b
  /-- No two options are checked. -/
  unique : ∀ o ∈ t.view.optionsOf s, ∀ a ∈ t.view.optionsOf s,
    verdict ":checked" o = .ok true → verdict ":checked" a = .ok true → o = a
  /-- One is, unless none is to be and all are disabled. -/
  someChecked : (∃ o ∈ t.view.optionsOf s, verdict ":checked" o = .ok true) ↔
    ∃ o ∈ t.view.optionsOf s, t.view.asksSelection o = true ∨ t.view.isDisabled o = false
  /-- It is the last that is to be, or else the first that is not disabled. -/
  checked : ∀ o ∈ t.view.optionsOf s, verdict ":checked" o = .ok true ↔ t.LastAsked s o ∨
    (∀ a ∈ t.view.optionsOf s, t.view.asksSelection a = false) ∧ t.FirstEnabled s o

/-- **Every list of a proper tree that shows one option at a time has one checked if it can.** -/
theorem Proper.showsOne (ht : t.Proper) {e : Engine} (he : e.Reached) (settings : Settings)
    (hs : t.view.isHtml s "select" = true) (hmultiple : t.view.hasAttribute s "multiple" = false)
    (hsize : ∀ text size, t.view.attribute? s "size" = some text →
      TreeView.boundedNumber? (Nat.pow 2 32 - 1) text = some size → size ≤ 1) :
    t.ShowsOne (e.verdict t.view settings) s := by
  have h := ht.wellFormed
  have hone : t.view.selectsOne s = true := TreeView.selectsOne_iff.mpr ⟨hmultiple, hsize⟩
  have hanswer {o : NodeId} (ho : o ∈ t.view.optionsOf s) :
      e.verdict t.view settings ":checked" o = .ok (t.view.isChecked o) :=
    he.verdict_state settings .checked (isElement_of_isHtml ((h.mem_optionsOf_iff hs).mp ho).1)
  have hchecked {o : NodeId} (ho : o ∈ t.view.optionsOf s) :
      e.verdict t.view settings ":checked" o = .ok true ↔ t.view.chosenOption s = some o := by
    obtain ⟨hoption, howning⟩ := (h.mem_optionsOf_iff hs).mp ho
    rw [hanswer ho, Except.ok.injEq, TreeView.isChecked_iff_chosenOption hoption howning hone]
  have hmem {o : NodeId} (ho : t.view.chosenOption s = some o) : o ∈ t.view.optionsOf s := by
    rcases h.chosenOption_eq_some_iff.mp ho with hlast | ⟨-, hfirst⟩
    · exact hlast.1
    · exact hfirst.1
  have hbelongs (o : NodeId) : t.view.owningSelect o = some s ↔ t.parent o = some s ∨
      ∃ g, t.parent o = some g ∧ t.view.isHtml g "optgroup" = true ∧ t.parent g = some s := by
    rw [TreeView.owningSelect_eq_some_iff, and_iff_right hs]
    rfl
  refine ⟨fun o => h.mem_optionsOf_iff hs, hbelongs, h.optionsOf_sublist s, fun o ho => ?_,
    fun o _ => TreeView.asksSelection_iff, fun o ho => ⟨_, hanswer ho⟩,
    fun o ho a ha hyes hyes' => ?_, ?_, fun o ho => ?_⟩
  · exact TreeView.isDisabled_iff_of_isOption ((h.mem_optionsOf_iff hs).mp ho).1
  · rw [hchecked ho] at hyes
    rw [hchecked ha] at hyes'
    exact Option.some.inj (hyes.symm.trans hyes')
  · rw [← isSome_chosenOption_iff, Option.isSome_iff_exists]
    constructor
    · rintro ⟨o, ho, hyes⟩
      exact ⟨o, (hchecked ho).mp hyes⟩
    · rintro ⟨o, ho⟩
      exact ⟨o, hmem ho, (hchecked (hmem ho)).mpr ho⟩
  · rw [hchecked ho, h.chosenOption_eq_some_iff]

/-- A list with an option in a disabled group and two more behind it.  Its size is not a number. -/
def options : List Change :=
  [.create (.element (Element.named (some Namespace.html) "select")),
    .setAttribute 1 "size" "many",
    .create (.element (Element.named (some Namespace.html) "optgroup")),
    .setAttribute 2 "disabled" "",
    .create (.element (Element.named (some Namespace.html) "option")),
    .create (.element (Element.named (some Namespace.html) "option")),
    .create (.element (Element.named (some Namespace.html) "option")),
    .insert 1 2 none, .insert 2 3 none, .insert 1 4 none, .insert 1 5 none]

/-- The option in the group is passed over, and the list shows the one behind the group. -/
theorem showsOne_options :
    let t := options.foldl apply (Tree.empty .html)
    let verdict := Engine.verdict {} t.view {}
    t.Proper ∧ t.view.optionsOf 1 = [3, 4, 5] ∧ verdict ":checked" 3 = .ok false ∧
      verdict ":checked" 4 = .ok true ∧ t.ShowsOne verdict 1 := by
  intro t verdict
  have hempty := Proper.empty .html
  have ht : t.Proper := hempty.foldl (hempty.admits_of_insertsBare (by decide +kernel))
  obtain ⟨hmultiple, hsize⟩ : t.view.hasAttribute 1 "multiple" = false ∧ _ :=
    TreeView.selectsOne_iff.mp (by decide +kernel)
  exact ⟨ht, by decide +kernel, by decide +kernel, by decide +kernel,
    Proper.showsOne ht .new {} (by decide +kernel) hmultiple hsize⟩

end Tree

end Selectors

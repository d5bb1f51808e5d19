import Selectors.Control.Validity

/-!
# Validity and how patterns are read

Whether a control is valid is computed with a step that reads patterns, and that step may look into
a memory first.  All else is the same in every way of reading, so what reading delivers decides
what is delivered about validity.

* `ReadsRight` is a judgement about computations and their values that steps keep, and by which
  reading a text delivers the pattern that the text describes.
* `ReadsRight.valid?` is the judgement about validity.
-/

namespace Selectors

variable {M : Type → Type} [Monad M] {G : ∀ α : Type, M α → α → Prop}
  {readers : Readers} {read : String → M (Option PatternTest)}

/-- The computations judged by `G` deliver the values beside them, and reading is one of them. -/
structure ReadsRight (readers : Readers) (G : ∀ α : Type, M α → α → Prop)
    (read : String → M (Option PatternTest)) : Prop where
  pure : ∀ {α : Type} (a : α), G α (Pure.pure a) a
  bind : ∀ {α β : Type} {x : M α} {g : α → M β} {a : α} {b : β}, G α x a → G β (g a) b →
    G β (x >>= g) b
  read : ∀ text, G (Option PatternTest) (read text) (readers.filling? text)

/-- Patterns read on the spot. -/
def Readers.readAnew (readers : Readers) (text : String) : Id (Option PatternTest) :=
  Pure.pure (readers.filling? text)

namespace ReadsRight

variable (H : ReadsRight readers G read) (t : TreeView) (n : NodeId)

include H

/-- A row of questions is read as the answers are. -/
theorem anyM {α : Type} {p : α → M Bool} {q : α → Id Bool} {xs : List α}
    (h : ∀ x, G Bool (p x) (q x).run) : G Bool (xs.anyM p) (xs.anyM q).run := by
  induction xs with
  | nil => exact H.pure false
  | cons x xs ih =>
      refine H.bind (h x) ?_
      change G Bool _ (match (q x).run with
        | true => Pure.pure true
        | false => xs.anyM q : Id Bool).run
      cases (q x).run with
      | true => exact H.pure true
      | false => exact ih

/-- The pattern of a control is read anew or remembered. -/
theorem fitsPattern : G Bool (t.fitsPattern read n) (t.fitsPattern readers.readAnew n).run := by
  unfold TreeView.fitsPattern
  split
  · exact H.pure _
  · split
    · exact H.bind (H.read _) (H.pure _)
    · exact H.pure _

/-- Whether a control accepts its text is read as its pattern is. -/
theorem acceptsText :
    G Bool (t.acceptsText readers read n) (t.acceptsText readers readers.readAnew n).run := by
  unfold TreeView.acceptsText
  split
  · exact H.pure _
  · exact H.bind (H.fitsPattern t n) (H.pure _)

/-- Whether a control satisfies its rules is read as its pattern is. -/
theorem satisfies : G Bool (t.satisfies readers read n)
    (t.satisfies readers readers.readAnew n).run := by
  have hinput : G Bool (t.inputSatisfies readers read n)
      (t.inputSatisfies readers readers.readAnew n).run := by
    unfold TreeView.inputSatisfies
    split
    · exact H.pure _
    · exact H.pure _
    · exact H.acceptsText t n
  unfold TreeView.satisfies
  split
  · exact hinput
  split
  · exact H.pure _
  split
  · exact H.pure _
  · exact H.pure _

/-- **What is delivered about validity** does not depend on how patterns are read. -/
theorem valid? : G (Option Bool) (t.valid? readers read n) (t.isValid? readers n) := by
  have hinvalid : ∀ x, G Bool (t.isInvalidControl readers read x)
      (t.isInvalidControl readers readers.readAnew x).run := by
    intro x
    unfold TreeView.isInvalidControl
    split
    · exact H.bind (H.satisfies t x) (H.pure _)
    · exact H.pure _
  change G (Option Bool) (t.valid? readers read n) (t.valid? readers readers.readAnew n).run
  unfold TreeView.valid?
  split
  · exact H.bind (H.anyM hinvalid) (H.pure _)
  split
  · exact H.bind (H.satisfies t n) (H.pure _)
  · exact H.pure _

end ReadsRight

end Selectors

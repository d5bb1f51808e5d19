import Mathlib.Data.List.Basic
import Selectors.Text.Ascii

/-!
# Cutting texts

A text is cut into the pieces between separators, or into what stands before and after the first of
them.  Where the front holds no separator the cut is behind the front.

* `Text.pieces_eq_singleton_iff` and `Text.pieces_eq_cons_cons_iff` read pieces off a text one by
  one, and `Text.pieces_eq_cons_iff` tells them all.
* `Text.cutAt?_append` and `Text.exists_of_cutAt?_eq_some` tell where a text is cut in two.
-/

namespace Selectors

namespace Text

variable {sep c : Char} {p : Char → Bool} {s a b w : List Char} {ws : List (List Char)}

/-- A text without separators is one piece. -/
theorem pieces_of_not_mem (ha : sep ∉ a) : pieces (· == sep) a = [a] := by
  induction a with
  | nil => rfl
  | cons c a ih =>
      obtain ⟨hc, ha⟩ := not_or.mp (List.mem_cons.not.mp ha)
      simp [pieces, Ne.symm hc, ih ha]

/-- A separator ends a piece. -/
theorem pieces_append (ha : sep ∉ a) (b : List Char) :
    pieces (· == sep) (a ++ sep :: b) = a :: pieces (· == sep) b := by
  induction a with
  | nil => simp [pieces]
  | cons c a ih =>
      obtain ⟨hc, ha⟩ := not_or.mp (List.mem_cons.not.mp ha)
      simp [pieces, Ne.symm hc, ih ha]

/-- One piece is a text without separators. -/
theorem pieces_eq_singleton_iff : pieces (· == sep) s = [a] ↔ sep ∉ a ∧ s = a := by
  constructor
  · intro hs
    by_cases hsep : sep ∈ s
    · obtain ⟨b, r, rfl, hb⟩ := List.eq_append_cons_of_mem hsep
      rw [pieces_append hb] at hs
      exact absurd (List.cons.inj hs).2 (pieces_ne_nil _ r)
    · rw [pieces_of_not_mem hsep] at hs
      exact List.singleton_inj.mp hs ▸ ⟨hsep, rfl⟩
  · rintro ⟨ha, rfl⟩
    exact pieces_of_not_mem ha

/-- Of several pieces the first ends at the first separator, and the others are the pieces of the
text behind it. -/
theorem pieces_eq_cons_cons_iff : pieces (· == sep) s = a :: w :: ws ↔
    sep ∉ a ∧ ∃ b, s = a ++ sep :: b ∧ pieces (· == sep) b = w :: ws := by
  constructor
  · intro hs
    by_cases hsep : sep ∈ s
    · obtain ⟨a, b, rfl, ha⟩ := List.eq_append_cons_of_mem hsep
      rw [pieces_append ha] at hs
      obtain ⟨rfl, hb⟩ := List.cons.inj hs
      exact ⟨ha, b, rfl, hb⟩
    · rw [pieces_of_not_mem hsep] at hs
      cases hs
  · rintro ⟨ha, b, rfl, hb⟩
    rw [pieces_append ha, hb]

/-- **The pieces of a text** are free of separators, and with a separator before each but the first
they make up the text. -/
theorem pieces_eq_cons_iff : pieces (· == sep) s = a :: ws ↔
    (∀ w ∈ a :: ws, sep ∉ w) ∧ s = a ++ ws.flatMap (sep :: ·) := by
  induction ws generalizing s a with
  | nil => simp [pieces_eq_singleton_iff]
  | cons w ws ih =>
      rw [pieces_eq_cons_cons_iff, List.forall_mem_cons, and_assoc]
      refine and_congr_right fun _ => ⟨?_, ?_⟩
      · rintro ⟨b, rfl, hb⟩
        obtain ⟨hws, rfl⟩ := ih.mp hb
        exact ⟨hws, by simp⟩
      · rintro ⟨hws, rfl⟩
        exact ⟨w ++ ws.flatMap (sep :: ·), by simp, ih.mpr ⟨hws, rfl⟩⟩

/-- A text is cut at the first character that passes the test. -/
theorem cutAt?_append (ha : ∀ d ∈ a, p d = false) (hc : p c = true) :
    cutAt? p (a ++ c :: b) = some (a, b) := by
  induction a with
  | nil => simp [cutAt?, hc]
  | cons d a ih =>
      obtain ⟨hd, ha⟩ := List.forall_mem_cons.mp ha
      simp [cutAt?, hd, ih ha]

/-- A text that is cut is its parts with the separator between them. -/
theorem exists_of_cutAt?_eq_some (hs : cutAt? p s = some (a, b)) :
    ∃ c, p c = true ∧ s = a ++ c :: b := by
  induction s generalizing a with
  | nil => cases hs
  | cons d s ih =>
      unfold cutAt? at hs
      split at hs
      · next hd =>
          obtain ⟨rfl, rfl⟩ := Prod.mk.inj (Option.some.inj hs)
          exact ⟨d, hd, rfl⟩
      · obtain ⟨⟨before, after⟩, hcut, heq⟩ := Option.map_eq_some_iff.mp hs
        obtain ⟨rfl, rfl⟩ := Prod.mk.inj heq
        obtain ⟨c, hc, rfl⟩ := ih hcut
        exact ⟨c, hc, rfl⟩

end Text

end Selectors

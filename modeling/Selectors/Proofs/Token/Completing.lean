import Mathlib.Data.List.Forall2
import Selectors.Proofs.Token.Splitting

/-!
# Runs that are completed

Brackets that a run leaves open are closed where the run ends.  Put into parentheses the run ends in
another way: the parenthesis behind it closes a bracket that was opened in it.  What is read of the
run stays the same all the same, and this is because of what the splitter and the trimmer do with
such a pair of runs: each part of the one is completed by a part of the other in the same way.

* `Token.Completes` relates a run to one with tokens of the same kinds and, behind these, nothing
  but whitespace and parentheses that close what is open.
* `Token.Completes.splitList` and `Token.Completes.trim` are the parts.
-/

namespace Selectors

namespace TokenKind

/-- What may stand behind a run that is completed. -/
def Fills (k : TokenKind) : Prop :=
  k = .whitespace ∨ k = .rightParen

/-- The brackets below those that a token asks for are left alone. -/
theorem nest_append {k : TokenKind} {stack stack' : List Bracket} (h : k.nest stack = some stack')
    (below : List Bracket) : k.nest (stack ++ below) = some (stack' ++ below) := by
  obtain ⟨hallowed, hmoves⟩ := nest_eq_some_iff.mp h
  refine nest_eq_some_iff.mpr ⟨hallowed, ?_⟩
  obtain ⟨b, hopens, rfl⟩ | ⟨b, hopens, hcloses, rfl⟩ | ⟨hopens, hcloses, rfl⟩ := hmoves
  · exact Or.inl ⟨b, hopens, rfl⟩
  · exact Or.inr (Or.inl ⟨b, hopens, hcloses, rfl⟩)
  · exact Or.inr (Or.inr ⟨hopens, hcloses, rfl⟩)

/-- A parenthesis closes the one that was opened last. -/
theorem nest_rightParen {stack stack' : List Bracket} (h : nest .rightParen stack = some stack') :
    stack = .round :: stack' := by
  cases stack with
  | nil => cases h
  | cons top stack =>
      cases top with
      | round =>
          cases h
          rfl
      | square => cases h

end TokenKind

namespace Token

/-- The second run has tokens of the same kinds as the first, and behind them nothing but what fills
it up; its brackets fit, where those on the stack are open before it. -/
inductive Completes : List Bracket → List Token → List Token → Prop
  | nil {stack : List Bracket} : Completes stack [] []
  | fill {stack stack' : List Bracket} {u : Token} {us : List Token} (hfill : u.kind.Fills)
      (hnest : u.kind.nest stack = some stack') (h : Completes stack' [] us) :
      Completes stack [] (u :: us)
  | cons {stack stack' : List Bracket} {t u : Token} {ts us : List Token} (hkind : t.kind = u.kind)
      (hnest : t.kind.nest stack = some stack') (h : Completes stack' ts us) :
      Completes stack (t :: ts) (u :: us)

variable {stack stack' : List Bracket} {ts us same more : List Token}

/-- A run that fits by itself fits behind open brackets, too. -/
theorem openAfter_above (h : openAfter stack ts = some stack') (below : List Bracket) :
    openAfter (stack ++ below) ts = some (stack' ++ below) := by
  induction ts generalizing stack with
  | nil =>
      cases h
      rfl
  | cons t ts ih =>
      obtain ⟨stack₁, hnest, hopen⟩ := openAfter_cons_eq_some_iff.mp h
      exact openAfter_cons_eq_some_iff.mpr ⟨_, TokenKind.nest_append hnest below, ih hopen⟩

namespace Completes

/-- A completed run opens and closes brackets that match. -/
theorem openAfter (h : Completes stack ts us) : ∃ stack', openAfter stack us = some stack' := by
  induction h with
  | nil => exact ⟨_, rfl⟩
  | fill _ hnest _ ih =>
      rw [openAfter_cons, hnest]
      exact ih
  | cons hkind hnest _ ih =>
      rw [openAfter_cons, ← hkind, hnest]
      exact ih

/-- The first run leaves some brackets open, too. -/
theorem openAfter_left (h : Completes stack ts us) :
    ∃ stack', Token.openAfter stack ts = some stack' := by
  induction h with
  | nil => exact ⟨_, rfl⟩
  | fill => exact ⟨_, rfl⟩
  | cons _ hnest _ ih =>
      rw [openAfter_cons, hnest]
      exact ih

/-- What fills up the open brackets completes a run that is at its end. -/
theorem of_fills (hmore : ∀ u ∈ more, u.kind.Fills)
    (h : Token.openAfter stack more = some stack') : Completes stack [] more := by
  induction more generalizing stack with
  | nil => exact nil
  | cons u more ih =>
      obtain ⟨stack₁, hnest, hopen⟩ := openAfter_cons_eq_some_iff.mp h
      exact fill (hmore u List.mem_cons_self) hnest
        (ih (fun v hv => hmore v (List.mem_cons_of_mem u hv)) hopen)

/-- A run is completed by one of the same kinds with what fills it up behind. -/
theorem of_append (hsame : ts.map kind = same.map kind) (hmore : ∀ u ∈ more, u.kind.Fills)
    (h : Token.openAfter stack (same ++ more) = some stack') :
    Completes stack ts (same ++ more) := by
  induction ts generalizing same stack with
  | nil =>
      obtain rfl := List.map_eq_nil_iff.mp hsame.symm
      exact of_fills hmore h
  | cons t ts ih =>
      rw [List.map_cons] at hsame
      obtain ⟨u, same, rfl, hkind, hrest⟩ := List.map_eq_cons_iff.mp hsame.symm
      obtain ⟨stack₁, hnest, hopen⟩ := openAfter_cons_eq_some_iff.mp h
      exact cons hkind.symm (hkind ▸ hnest) (ih hrest.symm hopen)

/-- Where no parenthesis is open only whitespace fills up. -/
theorem whitespace_of_nil (h : Completes stack [] us) (hround : .round ∉ stack) :
    ∀ u ∈ us, u.isWhitespace = true := by
  induction us generalizing stack with
  | nil => exact fun u hu => absurd hu List.not_mem_nil
  | cons u us ih =>
      cases h with
      | fill hfill hnest h =>
          rcases hfill with hspace | hclose
          · rw [hspace] at hnest
            cases hnest
            intro v hv
            rcases List.mem_cons.mp hv with rfl | hv
            · exact beq_iff_eq.mpr hspace
            · exact ih h hround v hv
          · rw [hclose] at hnest
            rw [TokenKind.nest_rightParen hnest] at hround
            exact absurd List.mem_cons_self hround

/-! ### Splitting -/

/-- No comma fills a run up, and one in it divides both runs in the same place. -/
theorem splitFrom (h : Completes stack ts us) :
    ∃ m m' ms ms', Token.splitFrom stack.length ts = m :: ms ∧
      Token.splitFrom stack.length us = m' :: ms' ∧ Completes stack m m' ∧
        List.Forall₂ (Completes []) ms ms' := by
  induction h with
  | nil => exact ⟨[], [], [], [], rfl, rfl, nil, .nil⟩
  | @fill stack stack' u us hfill hnest _ ih =>
      obtain ⟨m, m', ms, ms', hts, hus, hm, hms⟩ := ih
      cases hts
      cases hms
      have hcomma : u.kind = .comma → stack.length ≠ 0 := by
        intro hcomma
        rcases hfill with hspace | hclose
        · cases hcomma.symm.trans hspace
        · cases hcomma.symm.trans hclose
      refine ⟨[], u :: m', [], [], rfl, ?_, fill hfill hnest hm, .nil⟩
      rw [splitFrom_cons hcomma, depthAfter_of_nest hnest, hus]
      rfl
  | @cons stack stack' t u ts us hkind hnest _ ih =>
      obtain ⟨m, m', ms, ms', hts, hus, hm, hms⟩ := ih
      by_cases hdivides : t.kind = .comma ∧ stack = []
      · obtain ⟨hcomma, rfl⟩ := hdivides
        rw [hcomma] at hnest
        cases hnest
        refine ⟨[], [], m :: ms, m' :: ms', ?_, ?_, nil, .cons hm hms⟩
        · exact (splitFrom_comma hcomma).trans (congrArg _ hts)
        · exact (splitFrom_comma (hkind ▸ hcomma)).trans (congrArg _ hus)
      · have hcomma : t.kind = .comma → stack.length ≠ 0 := fun hcomma hnil =>
          hdivides ⟨hcomma, List.eq_nil_of_length_eq_zero hnil⟩
        refine ⟨t :: m, u :: m', ms, ms', ?_, ?_, cons hkind hnest hm, hms⟩
        · rw [splitFrom_cons hcomma, depthAfter_of_nest hnest, hts]
          rfl
        · rw [splitFrom_cons (hkind ▸ hcomma), ← hkind, depthAfter_of_nest hnest, hus]
          rfl

/-- **The members of a completed list complete its members**, one by one. -/
theorem splitList (h : Completes [] ts us) :
    List.Forall₂ (Completes []) (splitList ts) (splitList us) := by
  obtain ⟨m, m', ms, ms', hts, hus, hm, hms⟩ := h.splitFrom
  unfold Token.splitList
  rw [List.length_nil] at hts hus
  rw [hts, hus]
  exact .cons hm hms

/-- They are not longer than the lists. -/
theorem members {n n' : Nat} (h : Completes [] ts us) (hlength : ts.length ≤ n)
    (hlength' : us.length ≤ n') :
    List.Forall₂ (fun m m' => Completes [] m m' ∧ m.length ≤ n ∧ m'.length ≤ n')
      (Token.splitList ts) (Token.splitList us) := by
  obtain ⟨hsize, hmembers⟩ := List.forall₂_iff_zip.mp h.splitList
  refine List.forall₂_iff_zip.mpr ⟨hsize, fun {m m'} hmem => ?_⟩
  obtain ⟨hm, hm'⟩ := List.of_mem_zip hmem
  exact ⟨hmembers hmem, Nat.le_trans (length_le_of_mem_splitList hm) hlength,
    Nat.le_trans (length_le_of_mem_splitList hm') hlength'⟩

/-! ### Trimming -/

/-- Whitespace at the front may be dropped in both runs. -/
theorem dropWhile (h : Completes stack ts us) :
    Completes stack (ts.dropWhile isWhitespace) (us.dropWhile isWhitespace) := by
  induction h with
  | nil => exact nil
  | @fill stack stack' u us hfill hnest h ih =>
      rcases hfill with hspace | hclose
      · rw [hspace] at hnest
        cases hnest
        have hu : u.isWhitespace = true := beq_iff_eq.mpr hspace
        rw [List.dropWhile_cons_of_pos hu]
        exact ih
      · have hstop : ¬u.isWhitespace = true := fun hspace => by
          cases hclose.symm.trans (beq_iff_eq.mp hspace)
        rw [List.dropWhile_cons_of_neg hstop]
        exact fill (Or.inr hclose) hnest h
  | @cons stack stack' t u ts us hkind hnest h ih =>
      by_cases hspace : t.isWhitespace = true
      · have ht : t.kind = .whitespace := beq_iff_eq.mp hspace
        rw [ht] at hnest
        cases hnest
        have hu : u.isWhitespace = true := beq_iff_eq.mpr (hkind ▸ ht)
        rw [List.dropWhile_cons_of_pos hspace, List.dropWhile_cons_of_pos hu]
        exact ih
      · have hstop : ¬u.isWhitespace = true := fun hu =>
          hspace (beq_iff_eq.mpr (hkind.trans (beq_iff_eq.mp hu)))
        rw [List.dropWhile_cons_of_neg hspace, List.dropWhile_cons_of_neg hstop]
        exact cons hkind hnest h

/-- Dropping from the end stops at the first element if nothing is left behind it. -/
theorem rdropWhile_cons {α : Type} (p : α → Bool) (x : α) (xs : List α) :
    (x :: xs).rdropWhile p =
      if xs.rdropWhile p = [] ∧ p x = true then [] else x :: xs.rdropWhile p := by
  unfold List.rdropWhile
  rw [List.reverse_cons, List.dropWhile_append]
  by_cases hnil : xs.reverse.dropWhile p = []
  · by_cases hx : p x = true <;> simp [hnil, hx]
  · simp [hnil]

/-- Whitespace at the end may be dropped in both runs: that of the first run fills up in the
second. -/
theorem rdropWhile (h : Completes stack ts us) :
    Completes stack (ts.rdropWhile isWhitespace) (us.rdropWhile isWhitespace) := by
  induction h with
  | nil => exact nil
  | fill hfill hnest _ ih =>
      rw [rdropWhile_cons]
      split
      · exact nil
      · exact fill hfill hnest ih
  | @cons stack stack' t u ts us hkind hnest _ ih =>
      have hspace : t.isWhitespace = u.isWhitespace := congrArg (· == .whitespace) hkind
      rw [rdropWhile_cons, rdropWhile_cons, ← hspace]
      split
      · rename_i hts
        rw [hts.1] at ih
        split
        · exact nil
        · exact fill (Or.inl (hkind ▸ beq_iff_eq.mp hts.2)) (hkind ▸ hnest) ih
      · rename_i hts
        have hus : ¬(us.rdropWhile isWhitespace = [] ∧ t.isWhitespace = true) := by
          rintro ⟨hnil, ht⟩
          rw [hnil] at ih
          generalize ts.rdropWhile isWhitespace = ts' at ih hts
          cases ih
          exact hts ⟨rfl, ht⟩
        rw [if_neg hus]
        exact cons hkind hnest ih

/-- **Trimmed runs** complete each other as before. -/
theorem trim (h : Completes stack ts us) : Completes stack (trim ts) (trim us) := by
  rw [trim_eq, trim_eq]
  exact h.dropWhile.rdropWhile

end Completes

end Token

end Selectors

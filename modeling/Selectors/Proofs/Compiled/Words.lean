import Selectors.Compiled.Compile
import Selectors.Proofs.Formula.Grammar
import Selectors.Proofs.Syntax.Completing

/-!
# Words in completed arguments

Some arguments are no lists: a direction, language ranges, a formula.  No bracket stands in one that
is accepted.  So a parenthesis that completes the run is not accepted either, and whitespace at the
end of a run is not looked at.

* `AnB.Spaced` relates what is left of two runs while a formula is read.
* `AnB.ofTokens?_completes`, `Compile.dirWord?_completes` and `Compile.langRanges_completes` say
  that the words are the same.
* `AnB.openAfter_of_ofTokens?` says that a formula holds no brackets.
* `Compile.cutAtOf?_completes` cuts an argument before the list in it.
-/

namespace Selectors

open Token

/-! ### Formulas -/

namespace AnB

/-- What is left of two runs of which the second completes the first, and what the first leaves
open behind it. -/
def Spaced (stack : List Bracket) (ks ks' : List TokenKind) : Prop :=
  ∃ ts us, ts.map Token.kind = ks ∧ us.map Token.kind = ks' ∧ Completes [] ts us ∧
    openAfter [] ts = some stack

variable {stack : List Bracket} {ks ks' : List TokenKind} {k : TokenKind} {α β : Type}

/-- Two runs of which one is completed are both at their end, or they begin with the same token. -/
theorem Spaced.cases (h : Spaced stack ks ks') :
    (ks = [] ∧ stack = [] ∧ ∀ k ∈ ks', k = .whitespace) ∨
      ∃ k r r', ks = k :: r ∧ ks' = k :: r' ∧
        (k.opens? = none → k.closes? = none → Spaced stack r r') := by
  obtain ⟨ts, us, rfl, rfl, hcompletes, hopen⟩ := h
  cases ts with
  | nil =>
      cases hopen
      refine Or.inl ⟨rfl, rfl, fun k hk => ?_⟩
      obtain ⟨u, hu, rfl⟩ := List.mem_map.mp hk
      exact beq_iff_eq.mp (hcompletes.whitespace_of_nil List.not_mem_nil u hu)
  | cons t ts =>
      cases hcompletes with
      | @cons _ stack' _ u _ us hkind hnest h =>
          refine Or.inr ⟨t.kind, ts.map Token.kind, us.map Token.kind, rfl, ?_, ?_⟩
          · rw [List.map_cons, hkind]
          · intro hopens hcloses
            rw [openAfter_cons, hnest, Option.bind_some] at hopen
            have hsame : stack' = [] := by
              unfold TokenKind.nest at hnest
              rw [hopens, hcloses] at hnest
              split at hnest <;> cases hnest
              rfl
            rw [hsame] at h hopen
            exact ⟨ts, us, rfl, rfl, h, hopen⟩

/-- An empty run completes an empty one. -/
theorem Spaced.nil : Spaced [] [] [] := ⟨[], [], rfl, rfl, .nil, rfl⟩

/-- Whitespace is skipped in both runs. -/
theorem Spaced.skipSpace (h : Spaced stack ks ks') :
    Spaced stack (skipSpace ks) (skipSpace ks') := by
  induction ks generalizing ks' with
  | nil =>
      rcases h.cases with ⟨-, rfl, hspace⟩ | ⟨k, r, r', hks, -⟩
      · rw [skipSpace_eq_nil hspace]
        exact .nil
      · cases hks
  | cons k r ih =>
      rcases h.cases with ⟨hks, -⟩ | ⟨k, r, r', hks, rfl, hrest⟩
      · cases hks
      · cases hks
        by_cases hspace : k = .whitespace
        · subst hspace
          change Spaced stack (AnB.skipSpace r) (AnB.skipSpace r')
          exact ih (hrest rfl rfl)
        · rw [skipSpace_cons hspace, skipSpace_cons hspace]
          exact h

/-- Behind the whitespace both runs end, or both go on with a token of the same kind. -/
theorem Spaced.cases_skipSpace (h : Spaced stack ks ks') :
    (AnB.skipSpace ks = [] ∧ AnB.skipSpace ks' = [] ∧ stack = []) ∨
      ∃ k r r', AnB.skipSpace ks = k :: r ∧ AnB.skipSpace ks' = k :: r' ∧
        (k.opens? = none → k.closes? = none → Spaced stack r r') := by
  rcases h.skipSpace.cases with ⟨hks, hstack, hspace⟩ | hcons
  · refine Or.inl ⟨hks, ?_, hstack⟩
    cases hks' : AnB.skipSpace ks' with
    | nil => rfl
    | cons k r =>
        have hfirst := List.head?_dropWhile_not (· == TokenKind.whitespace) ks'
        have hdrop : List.dropWhile (· == TokenKind.whitespace) ks' = k :: r := hks'
        have hk : k = .whitespace := hspace k (hks' ▸ List.mem_cons_self)
        rw [hdrop, hk] at hfirst
        cases hfirst
  · exact Or.inr hcons

/-- Two readings of which both fail, or both succeed alike. -/
def Agree (stack : List Bracket) :
    Option (α × List TokenKind) → Option (α × List TokenKind) → Prop :=
  Option.Rel fun x x' => x.1 = x'.1 ∧ Spaced stack x.2 x'.2

/-- What is made of the results agrees if the results do. -/
theorem Agree.map {f : α → β} {x y : Option (α × List TokenKind)} (h : Agree stack x y) :
    Agree stack (x.map fun (a, r) => (f a, r)) (y.map fun (a, r) => (f a, r)) := by
  cases h with
  | none => exact .none
  | some h => exact .some ⟨congrArg f h.1, h.2⟩

/-- A reading that takes a value from one token. -/
theorem Agree.take {r r' : List TokenKind} (o : Option α) (f : α → β) (h : Spaced stack r r') :
    Agree stack (o.map fun a => (f a, r)) (o.map fun a => (f a, r')) := by
  cases o with
  | none => exact .none
  | some a => exact .some ⟨rfl, h⟩

/-- A number without a sign is read alike in both runs. -/
theorem Spaced.signless (h : Spaced stack ks ks') :
    Agree stack (signless? (AnB.skipSpace ks)) (signless? (AnB.skipSpace ks')) := by
  rcases h.cases_skipSpace with ⟨hks, hks', -⟩ | ⟨k, r, r', hks, hks', hrest⟩
  · rw [hks, hks']
    exact .none
  · rw [hks, hks']
    cases k with
    | number n =>
        simp only [signless?]
        split
        · exact .none
        · exact Agree.take _ id (hrest rfl rfl)
    | _ => exact .none

/-- An offset is read alike in both runs. -/
theorem Spaced.offset (h : Spaced stack ks ks') : Agree stack (offset? ks) (offset? ks') := by
  unfold offset?
  rcases h.cases_skipSpace with ⟨hks, hks', rfl⟩ | ⟨k, r, r', hks, hks', hrest⟩
  · rw [hks, hks']
    exact .some ⟨rfl, .nil⟩
  · rw [hks, hks']
    cases k with
    | number n =>
        simp only
        split
        · exact Agree.take _ id (hrest rfl rfl)
        · exact .none
    | delim c =>
        have hr := hrest rfl rfl
        by_cases hplus : c = '+'
        · subst hplus
          exact hr.signless
        by_cases hminus : c = '-'
        · subst hminus
          exact hr.signless.map
        · split <;> simp_all [Agree, Option.rel_none_none]
    | _ => exact .none

/-- What stands behind a coefficient is read alike in both runs. -/
theorem Spaced.afterCoefficient (h : Spaced stack ks ks') (a : Int) (unit : List Char) :
    Agree stack (afterCoefficient? a unit ks) (afterCoefficient? a unit ks') := by
  unfold afterCoefficient?
  split
  · exact h.offset.map
  · exact h.signless.map (f := fun b : Int => AnB.mk a (-b))
  · split
    · exact .some ⟨rfl, h⟩
    · exact .none
  · exact .none

/-- A name is read alike in both runs. -/
theorem Spaced.ofName (h : Spaced stack ks ks') (name : List Char) :
    Agree stack (ofName? name ks) (ofName? name ks') := by
  unfold ofName?
  split
  · exact .some ⟨rfl, h⟩
  split
  · exact .some ⟨rfl, h⟩
  split
  · exact h.afterCoefficient _ _
  · exact h.afterCoefficient _ _

/-- **A formula is read alike in both runs**, up to whitespace and what completes them. -/
theorem Spaced.read (h : Spaced stack ks ks') :
    Agree stack (read? (AnB.skipSpace ks)) (read? (AnB.skipSpace ks')) := by
  rcases h.cases_skipSpace with ⟨hks, hks', -⟩ | ⟨k, r, r', hks, hks', hrest⟩
  · rw [hks, hks']
    exact .none
  · rw [hks, hks']
    cases k with
    | ident name => exact (hrest rfl rfl).ofName _
    | number n => exact Agree.take n.integer? (AnB.mk 0) (hrest rfl rfl)
    | dimension n unit =>
        simp only [read?]
        cases n.integer? with
        | none => exact .none
        | some a => exact (hrest rfl rfl).afterCoefficient a _
    | delim c =>
        by_cases hplus : c = '+'
        · subst hplus
          rcases (hrest rfl rfl).cases with ⟨rfl, -, hspace⟩ | ⟨k, r, r', rfl, rfl, hmore⟩
          · cases r' with
            | nil => exact .none
            | cons k r' =>
                rw [hspace k List.mem_cons_self]
                exact .none
          · cases k with
            | ident name => exact (hmore rfl rfl).afterCoefficient 1 _
            | _ => exact .none
        · have hnone : ∀ r, read? (.delim c :: r) = none := fun r => by
            unfold read?
            split <;> simp_all
          rw [hnone, hnone]
          exact .none
    | _ => exact .none

/-- **The same formula is read from a completed run**, and where there is one no bracket is left
open. -/
theorem ofTokens?_completes {ts us : List Token} (h : Completes [] ts us) :
    ofTokens? ts = ofTokens? us ∧
      ∀ f, ofTokens? ts = some f → openAfter [] ts = some [] := by
  obtain ⟨stack, hopen⟩ := h.openAfter_left
  have hspaced : Spaced stack (ts.map Token.kind) (us.map Token.kind) :=
    ⟨ts, us, rfl, rfl, h, hopen⟩
  have hread := hspaced.read
  unfold ofTokens?
  generalize read? (AnB.skipSpace (ts.map Token.kind)) = x,
    read? (AnB.skipSpace (us.map Token.kind)) = y at hread
  cases hread with
  | none => exact ⟨rfl, fun f hf => by cases hf⟩
  | @some x y hxy =>
      obtain ⟨f, r⟩ := x
      obtain ⟨f', r'⟩ := y
      obtain ⟨rfl, hrest⟩ := hxy
      rcases hrest.cases_skipSpace with ⟨hr, hr', rfl⟩ | ⟨k, s, s', hr, hr', -⟩
      · exact ⟨by simp only [hr, hr'], fun _ _ => hopen⟩
      · simp [hr, hr']

/-! ### Brackets in formulas -/

variable {os : List TokenKind} {b : Int} {f : AnB}

/-- Whitespace opens and closes nothing. -/
theorem nest_of_blank (h : Blank ks) : ∀ k ∈ ks, k.nest stack = some stack := fun k hk => by
  rw [h k hk]
  rfl

/-- An offset opens and closes nothing. -/
theorem nest_of_offset (h : Offset os b) : ∀ k ∈ os, k.nest stack = some stack := by
  cases h with
  | none => exact fun _ hk => absurd hk List.not_mem_nil
  | signed hws h =>
      cases h
      exact List.forall_mem_append.mpr ⟨nest_of_blank hws, List.forall_mem_singleton.mpr rfl⟩
  | plus hws hws' h | minus hws hws' h =>
      cases h
      refine List.forall_mem_append.mpr ⟨nest_of_blank hws, List.forall_mem_cons.mpr ⟨rfl, ?_⟩⟩
      exact List.forall_mem_append.mpr ⟨nest_of_blank hws', List.forall_mem_singleton.mpr rfl⟩

/-- **A formula holds no brackets.** -/
theorem nest_of_formula (h : Formula ks f) : ∀ k ∈ ks, k.nest stack = some stack := by
  cases h with
  | odd | even | integer => exact List.forall_mem_singleton.mpr rfl
  | stepped hlead hfollows =>
      refine List.forall_mem_append.mpr ⟨?_, ?_⟩
      · cases hlead with
        | plus => exact List.forall_mem_cons.mpr ⟨rfl, List.forall_mem_singleton.mpr rfl⟩
        | dimension | letter | minus => exact List.forall_mem_singleton.mpr rfl
      · cases hfollows with
        | offset h => exact nest_of_offset h
        | digits => exact fun _ hk => absurd hk List.not_mem_nil
        | hyphen hws h =>
            cases h
            exact List.forall_mem_append.mpr ⟨nest_of_blank hws, List.forall_mem_singleton.mpr rfl⟩

/-- A run that is a formula opens and closes nothing. -/
theorem openAfter_of_ofTokens? {ts : List Token} (h : ofTokens? ts = some f) :
    openAfter stack ts = some stack := by
  obtain ⟨front, ks, back, hkinds, hfront, hback, hformula⟩ := ofTokens?_eq_some_iff.mp h
  refine openAfter_of_nest ?_
  rw [hkinds]
  exact List.forall_mem_append.mpr ⟨List.forall_mem_append.mpr
    ⟨nest_of_blank hfront, nest_of_formula hformula⟩, nest_of_blank hback⟩

end AnB

namespace Compile

variable {stack : List Bracket} {ts us : List Token}

/-! ### Names and ranges -/

/-- A direction is read alike in both runs. -/
theorem dirWord?_completes (h : Completes [] ts us) : dirWord? ts = dirWord? us := by
  have C := Syntax.mirrors_completed [] [] ts.length us.length
  have htrim := Syntax.completed_trim h (Nat.le_refl _) (Nat.le_refl _)
  unfold dirWord?
  rcases C.cases htrim with ⟨hts, hus⟩ | ⟨k, i, j, r, i', j', r', hts, hus, hrest⟩
  · rw [hts, hus]
  · rw [hts, hus]
    cases k with
    | ident word =>
        rcases C.cases (hrest rfl) with ⟨rfl, rfl⟩ | ⟨k, i, j, r, i', j', r', rfl, rfl, -⟩ <;> rfl
    | _ => rfl

/-- Of all characters only a star is a language range. -/
theorem langRange?_of_delim {c : Char} {i j : Nat} {r : List Token}
    (hts : trim ts = ⟨.delim c, i, j⟩ :: r) (hstar : c ≠ '*') : langRange? ts = none := by
  unfold langRange?
  rw [hts]
  split <;> simp_all

/-- A language range is read alike in both runs. -/
theorem langRange?_completes (h : Completes [] ts us) : langRange? ts = langRange? us := by
  have C := Syntax.mirrors_completed [] [] ts.length us.length
  have htrim := Syntax.completed_trim h (Nat.le_refl _) (Nat.le_refl _)
  rcases C.cases htrim with ⟨hts, hus⟩ | ⟨k, i, j, r, i', j', r', hts, hus, hrest⟩
  · rw [langRange?, langRange?, hts, hus]
  · cases k with
    | ident word =>
        rw [langRange?, langRange?, hts, hus]
        rcases C.cases (hrest rfl) with ⟨rfl, rfl⟩ | ⟨k, i, j, r, i', j', r', rfl, rfl, -⟩ <;> rfl
    | string word =>
        rw [langRange?, langRange?, hts, hus]
        rcases C.cases (hrest rfl) with ⟨rfl, rfl⟩ | ⟨k, i, j, r, i', j', r', rfl, rfl, -⟩ <;> rfl
    | delim c =>
        by_cases hstar : c = '*'
        · subst hstar
          rw [langRange?, langRange?, hts, hus]
          rcases C.cases (hrest rfl) with ⟨rfl, rfl⟩ | ⟨k, i, j, r, i', j', r', rfl, rfl, hmore⟩
          · rfl
          · cases k with
            | ident rest =>
                rcases C.cases (hmore rfl) with
                  ⟨rfl, rfl⟩ | ⟨k, i, j, r, i', j', r', rfl, rfl, -⟩ <;> rfl
            | _ => rfl
        · rw [langRange?_of_delim hts hstar, langRange?_of_delim hus hstar]
    | _ => rw [langRange?, langRange?, hts, hus]

/-- The ranges in a completed list are the same. -/
theorem langRanges_completes (h : Completes [] ts us) :
    (splitList ts).mapM langRange? = (splitList us).mapM langRange? := by
  have hmembers := h.splitList
  generalize splitList ts = ms, splitList us = ms' at hmembers
  induction hmembers with
  | nil => rfl
  | cons hm _ ih => rw [List.mapM_cons, List.mapM_cons, langRange?_completes hm, ih]

/-! ### What stands before a list -/

/-- A run is cut at a word: it stands between the two parts. -/
theorem exists_of_cutAtOf? {ts before after : List Token}
    (h : cutAtOf? ts = some (before, after)) :
    ∃ word, isOf word = true ∧ ts = before ++ word :: after := by
  fun_induction cutAtOf? ts generalizing before with
  | case1 space word r hword =>
      cases h
      exact ⟨word, (Bool.and_eq_true_iff.mp hword).2, rfl⟩
  | case2 space word r hword ih =>
      obtain ⟨⟨before', after'⟩, hcut, heq⟩ := Option.map_eq_some_iff.mp h
      cases heq
      obtain ⟨word', hword', hr⟩ := ih hcut
      exact ⟨word', hword', congrArg (space :: ·) hr⟩
  | case3 => cases h

/-- The word in front of a list opens and closes nothing. -/
theorem nest_of_isOf {t : Token} {stack : List Bracket} (h : isOf t = true) :
    t.kind.nest stack = some stack := by
  unfold isOf at h
  split at h
  · rename_i word hkind
    rw [hkind]
    rfl
  · cases h

/-- Nothing that fills a run up is the word before a list. -/
theorem isOf_of_fills {u : Token} (h : u.kind.Fills) : isOf u = false := by
  unfold isOf
  rcases h with h | h <;> rw [h]

/-- In what completes a run no list begins. -/
theorem cutAtOf?_of_fills (h : Completes stack [] us) (t : Token) : cutAtOf? (t :: us) = none := by
  induction us generalizing stack t with
  | nil => rfl
  | cons u us ih =>
      cases h with
      | fill hfill _ h =>
          rw [cutAtOf?, isOf_of_fills hfill, Bool.and_false, ih h]
          rfl

/-- **The list in an argument is completed**, and so is what stands before it. -/
theorem cutAtOf?_completes (h : Completes stack ts us) :
    (cutAtOf? ts = none ∧ cutAtOf? us = none) ∨
      ∃ before after before' after' stack', cutAtOf? ts = some (before, after) ∧
        cutAtOf? us = some (before', after') ∧ Completes stack before before' ∧
          openAfter stack before = some stack' ∧ Completes stack' after after' ∧
            after.length < ts.length ∧ after'.length < us.length := by
  induction h with
  | nil => exact Or.inl ⟨rfl, rfl⟩
  | fill _ _ h => exact Or.inl ⟨rfl, cutAtOf?_of_fills h _⟩
  | @cons stack stack' t u ts us hkind hnest h ih =>
      cases h with
      | nil => exact Or.inl ⟨rfl, rfl⟩
      | fill hfill hnest' h => exact Or.inl ⟨rfl, cutAtOf?_of_fills (.fill hfill hnest' h) u⟩
      | @cons _ stack₂ t₂ u₂ ts us hkind₂ hnest₂ h =>
          have hspace : u.isWhitespace = t.isWhitespace := congrArg (· == .whitespace) hkind.symm
          have hof : isOf u₂ = isOf t₂ := by
            unfold isOf
            rw [hkind₂]
          rw [cutAtOf?, cutAtOf?, hspace, hof]
          split
          · rename_i hcut
            rw [Bool.and_eq_true] at hcut
            rw [nest_of_isOf hcut.2] at hnest₂
            cases hnest₂
            refine Or.inr ⟨[t], ts, [u], us, stack', rfl, rfl, .cons hkind hnest .nil, ?_, h, ?_,
              ?_⟩
            · rw [openAfter_cons, hnest]
              rfl
            · simp only [List.length_cons]
              omega
            · simp only [List.length_cons]
              omega
          · rcases ih with ⟨hts, hus⟩ | hsome
            · rw [hts, hus]
              exact Or.inl ⟨rfl, rfl⟩
            · obtain ⟨before, after, before', after', σ, hts, hus, hbefore, hopen, hafter, hlt,
                hlt'⟩ := hsome
              rw [hts, hus]
              refine Or.inr ⟨t :: before, after, u :: before', after', σ, rfl, rfl,
                .cons hkind hnest hbefore, ?_, hafter, Nat.lt_succ_of_lt hlt,
                Nat.lt_succ_of_lt hlt'⟩
              rw [openAfter_cons, hnest]
              exact hopen

end Compile

end Selectors

import Selectors.Proofs.Syntax.Alike
import Selectors.Proofs.Token.Completing

/-!
# Reading a completed run

The reader of selectors takes a run and one that completes it for the same selector.  A parenthesis
that is closed in the one run and left open in the other is that of a function, because the reader
takes no other, and where the run ends the arguments end in either case.  So the arguments complete
each other again, and nothing is left behind them.

* `Syntax.Completed` is the relation between what is left of two trimmed runs.
* `Syntax.mirrors_completed` shows that it is kept; the lengths of arguments are bounded with it.
* `ComplexNode.read_completed` is what follows for members.
-/

namespace Selectors

open Token

namespace TokenKind

variable {k : TokenKind} {stack stack' inner : List Bracket}

/-- A token behind an open parenthesis closes it or leaves it open. -/
theorem nest_behind_round (h : k.nest (inner ++ .round :: stack) = some stack') :
    (k = .rightParen ∧ inner = [] ∧ stack' = stack) ∨
      ∃ inner', k.nest inner = some inner' ∧ stack' = inner' ++ .round :: stack := by
  obtain ⟨hallowed, hmoves⟩ := nest_eq_some_iff.mp h
  obtain ⟨b, hopens, rfl⟩ | ⟨b, hopens, hcloses, hstack⟩ | ⟨hopens, hcloses, rfl⟩ := hmoves
  · exact Or.inr ⟨b :: inner, nest_eq_some_iff.mpr ⟨hallowed, Or.inl ⟨b, hopens, rfl⟩⟩, rfl⟩
  · cases inner with
    | nil =>
        obtain ⟨rfl, rfl⟩ := List.cons.inj hstack
        exact Or.inl ⟨closes?_eq_some hcloses, rfl, rfl⟩
    | cons top inner =>
        obtain ⟨rfl, rfl⟩ := List.cons.inj hstack
        exact Or.inr ⟨inner,
          nest_eq_some_iff.mpr ⟨hallowed, Or.inr (Or.inl ⟨top, hopens, hcloses, rfl⟩)⟩, rfl⟩
  · exact Or.inr ⟨inner,
      nest_eq_some_iff.mpr ⟨hallowed, Or.inr (Or.inr ⟨hopens, hcloses, rfl⟩)⟩, rfl⟩

/-- Squares are not parentheses: a token that opens none leaves none open. -/
theorem round_not_mem_nest (h : k.nest stack = some stack') (hopens : k.opensParen = false)
    (hround : .round ∉ stack) : .round ∉ stack' := by
  obtain ⟨-, ⟨b, hb, rfl⟩ | ⟨b, -, -, rfl⟩ | ⟨-, -, rfl⟩⟩ := nest_eq_some_iff.mp h
  · cases b with
    | round =>
        rw [opensParen_eq, hb] at hopens
        cases hopens
    | square => exact List.not_mem_cons_of_ne_of_not_mem (by simp) hround
  · exact List.not_mem_of_not_mem_cons hround
  · exact hround

end TokenKind

namespace Syntax

variable {stack stack' inner inner' : List Bracket} {ts us r : List Token} {t : Token}

/-! ### Arguments -/

/-- Arguments that end at once have no tokens. -/
theorem argumentTokens_rightParen (h : t.kind = .rightParen) :
    argumentTokens 0 (t :: r) = ([], t :: r) := by
  simp [argumentTokens, h]

/-- The reader of arguments counts the parentheses that are on the stack. -/
theorem argumentTokens_of_nest (h : t.kind.nest inner = some inner') :
    argumentTokens (inner.count .round) (t :: r) =
      (t :: (argumentTokens (inner'.count .round) r).1,
        (argumentTokens (inner'.count .round) r).2) := by
  rw [argumentTokens, TokenKind.isRightParen_eq, TokenKind.opensParen_eq]
  obtain ⟨-, ⟨b, hopens, rfl⟩ | ⟨b, hopens, hcloses, rfl⟩ | ⟨hopens, hcloses, rfl⟩⟩ :=
    TokenKind.nest_eq_some_iff.mp h
  · rw [hopens, TokenKind.closes?_of_opens? hopens]
    cases b <;> simp
  · rw [hopens, hcloses]
    cases b <;> simp
  · rw [hopens, hcloses]
    simp

/-- **The arguments of a function complete each other**, and so does what is behind them. -/
theorem argumentTokens_completes (h : Completes (inner ++ .round :: stack) ts us) :
    Completes inner (argumentTokens (inner.count .round) ts).1
        (argumentTokens (inner.count .round) us).1 ∧
      Completes stack (argumentTokens (inner.count .round) ts).2.tail
        (argumentTokens (inner.count .round) us).2.tail := by
  generalize hstack : inner ++ .round :: stack = whole at h
  induction h generalizing inner with
  | nil => exact ⟨.nil, .nil⟩
  | @fill _ stack₁ u us hfill hnest h ih =>
      subst hstack
      rcases TokenKind.nest_behind_round hnest with ⟨hclose, rfl, rfl⟩ | ⟨inner', hnest', rfl⟩
      · rw [List.count_nil, argumentTokens_rightParen hclose]
        exact ⟨.nil, h⟩
      · rw [argumentTokens_of_nest hnest']
        obtain ⟨hinside, hrest⟩ := ih rfl
        exact ⟨.fill hfill hnest' hinside, hrest⟩
  | @cons _ stack₁ t u ts us hkind hnest h ih =>
      subst hstack
      rcases TokenKind.nest_behind_round hnest with ⟨hclose, rfl, rfl⟩ | ⟨inner', hnest', rfl⟩
      · rw [List.count_nil, argumentTokens_rightParen hclose,
          argumentTokens_rightParen (hkind ▸ hclose)]
        exact ⟨.nil, h⟩
      · rw [argumentTokens_of_nest hnest', argumentTokens_of_nest (hkind ▸ hnest')]
        obtain ⟨hinside, hrest⟩ := ih rfl
        exact ⟨.cons hkind hnest' hinside, hrest⟩

/-- The tokens of arguments do not depend on the source. -/
theorem readArguments_tokens (source : List Char) (stop : Nat) (ts : List Token) :
    (readArguments source stop ts).1.tokens = (argumentTokens 0 ts).1 := by
  unfold readArguments
  rcases argumentTokens 0 ts with ⟨inside, rest⟩
  cases rest with
  | nil => rfl
  | cons close r => rfl

end Syntax

/-- The second arguments complete the first; there are fewer tokens in them than `n` and `n'`. -/
structure Arguments.Completed (n n' : Nat) (args args' : Arguments) : Prop where
  completes : Completes [] args.tokens args'.tokens
  length : args.tokens.length < n
  length' : args'.tokens.length < n'

namespace Syntax

/-- What is left of two trimmed runs, not more than `n` and `n'` tokens: no parenthesis is open
before it. -/
structure Completed (n n' : Nat) (ts us : List Token) : Prop where
  completes : ∃ stack, .round ∉ stack ∧ Completes stack ts us
  last : ∀ t ∈ us.getLast?, t.isWhitespace = false
  length : ts.length ≤ n
  length' : us.length ≤ n'

variable {n n' : Nat} {ts us : List Token}

/-- Trimmed runs complete each other if the runs do. -/
theorem completed_trim (h : Completes [] ts us) (hlength : ts.length ≤ n)
    (hlength' : us.length ≤ n') : Completed n n' (trim ts) (trim us) where
  completes := ⟨[], List.not_mem_nil, h.trim⟩
  last := (bare_trim us).last
  length := Nat.le_trans (length_trim_le ts) hlength
  length' := Nat.le_trans (length_trim_le us) hlength'

/-- Among completed runs an empty one goes with an empty one. -/
theorem Completed.eq_nil (h : Completed n n' [] us) : us = [] := by
  obtain ⟨stack, hround, hcompletes⟩ := h.completes
  cases hlast : us.getLast? with
  | none => exact List.getLast?_eq_none_iff.mp hlast
  | some t =>
      have hspace := hcompletes.whitespace_of_nil hround t (List.mem_of_getLast? hlast)
      rw [h.last t hlast] at hspace
      cases hspace

/-- The end of a run is the end of what is left of it. -/
theorem last_of_suffix {rest : List Token} (h : ∀ t ∈ us.getLast?, t.isWhitespace = false)
    (hrest : rest <:+ us) : ∀ t ∈ rest.getLast?, t.isWhitespace = false := by
  obtain ⟨taken, rfl⟩ := hrest
  intro t ht
  refine h t ?_
  rw [List.getLast?_append, ht]
  rfl

/-- **Completed runs mirror the run**: what is read in one is read in the other. -/
theorem mirrors_completed (source source' : List Char) (n n' : Nat) :
    Mirrors source source' (Completed n n') (fun _ _ => True) (Arguments.Completed n n')
      (fun _ _ => True) where
  nil h := h.eq_nil
  cons := by
    intro t r u h
    obtain ⟨stack, hround, hcompletes⟩ := h.completes
    cases hcompletes with
    | @cons _ stack' _ t' _ r' hkind hnest hrest =>
        refine ⟨t', r', rfl, hkind, trivial, trivial, fun hopens => ?_⟩
        have hlength := h.length
        have hlength' := h.length'
        rw [List.length_cons] at hlength hlength'
        exact ⟨⟨stack', TokenKind.round_not_mem_nest hnest hopens hround, hrest⟩,
          last_of_suffix h.last (List.suffix_cons t' r'), by omega, by omega⟩
  arguments := by
    intro t t' r r' name h hname
    obtain ⟨stack, hround, hcompletes⟩ := h.completes
    cases hcompletes with
    | @cons _ stack' _ _ _ _ hkind hnest hrest =>
        rw [hname] at hnest
        cases hnest
        obtain ⟨hinside, hbehind⟩ :=
          argumentTokens_completes (show Completes ([] ++ .round :: stack) r r' from hrest)
        have hparts := congrArg List.length (argumentTokens_append 0 r)
        have hparts' := congrArg List.length (argumentTokens_append 0 r')
        have hlength := h.length
        have hlength' := h.length'
        rw [List.length_append] at hparts hparts'
        rw [List.length_cons] at hlength hlength'
        have hsuffix : (argumentTokens 0 r').2.tail <:+ t' :: r' := by
          have hrest' : (argumentTokens 0 r').2 <:+ r' := ⟨_, argumentTokens_append 0 r'⟩
          exact ((List.tail_suffix _).trans hrest').trans (List.suffix_cons t' r')
        refine ⟨⟨?_, ?_, ?_⟩, trivial, ⟨⟨stack, hround, ?_⟩, ?_, ?_, ?_⟩⟩
        · rw [readArguments_tokens, readArguments_tokens]
          exact hinside
        · rw [readArguments_tokens]
          omega
        · rw [readArguments_tokens]
          omega
        · rw [Grammar.readArguments_rest, Grammar.readArguments_rest]
          exact hbehind
        · rw [Grammar.readArguments_rest]
          exact last_of_suffix h.last hsuffix
        · rw [Grammar.readArguments_rest, List.length_tail]
          omega
        · rw [Grammar.readArguments_rest, List.length_tail]
          omega
  text _ _ := trivial

end Syntax

namespace ComplexNode

variable {ts us : List Token}

/-- Two readings of one selector; the arguments in the second complete those in the first. -/
abbrev Completed (n n' : Nat) (node node' : ComplexNode) : Prop :=
  node.Alike (Arguments.Completed n n') (fun _ _ => True) node'

/-- **A completed member is read alike.** -/
theorem read_completed (source source' : List Char) (relative : Bool) {n n' : Nat}
    (h : Completes [] ts us) (hlength : ts.length ≤ n) (hlength' : us.length ≤ n') :
    Option.Rel (Completed n n') (read? source relative (trim ts))
      (read? source' relative (trim us)) :=
  read_alike (Syntax.mirrors_completed source source' n n') relative
    (Syntax.completed_trim h hlength hlength')

/-- Of two lists that complete each other member by member both are read, or neither is. -/
theorem mapM_ofTokens_completed (source source' : List Char) (relative : Bool) {n n' : Nat}
    {ms ms' : List (List Token)}
    (h : List.Forall₂ (fun m m' => Completes [] m m' ∧ m.length ≤ n ∧ m'.length ≤ n') ms ms') :
    (∃ e e', ms.mapM (ofTokens source relative) = .error e ∧
        ms'.mapM (ofTokens source' relative) = .error e') ∨
      ∃ nodes nodes', ms.mapM (ofTokens source relative) = .ok nodes ∧
        ms'.mapM (ofTokens source' relative) = .ok nodes' ∧
          List.Forall₂ (Completed n n') nodes nodes' := by
  induction h with
  | nil => exact Or.inr ⟨[], [], rfl, rfl, .nil⟩
  | @cons m m' ms ms' hm _ ih =>
      rw [List.mapM_cons, List.mapM_cons]
      have hread := read_completed source source' relative hm.1 hm.2.1 hm.2.2
      unfold ofTokens at ih ⊢
      generalize read? source relative (trim m) = x, read? source' relative (trim m') = y at hread
      cases hread with
      | none => exact Or.inl ⟨_, _, rfl, rfl⟩
      | some hnode =>
          rcases ih with ⟨e, e', hms, hms'⟩ | ⟨nodes, nodes', hms, hms', hnodes⟩
          · simp only [hms, hms']
            exact Or.inl ⟨_, _, rfl, rfl⟩
          · simp only [hms, hms']
            exact Or.inr ⟨_, _, rfl, rfl, .cons hnode hnodes⟩

end ComplexNode

end Selectors

import Mathlib.Data.Nat.Init
import Selectors.Proofs.Syntax.Grammar

/-!
# Brackets in arguments

The arguments of a function end at the parenthesis that closes it.  The grammar finds it by pairing
all brackets, the reader counts parentheses only.  In a run whose brackets fit the two agree: what
the grammar pairs leaves the count as it was, and wherever brackets fit the grammar gets to the
parenthesis, or to the end of the run.

* `Token.BracketsFit` says that a part of a run can stand in one whose brackets fit.
* `Grammar.nested_of_balanced` pairs the brackets that the check accepts.
* `Grammar.arguments_iff` compares the grammar with `Syntax.readArguments`.
-/

namespace Selectors

namespace Token

/-- The brackets of a part of a run fit, some of them closing what is opened before it. -/
def BracketsFit (ts : List Token) : Prop :=
  ∃ stack, balanced stack ts = true

/-- Brackets that fit fit behind the first token. -/
theorem bracketsFit_of_cons {t : Token} {ts : List Token} (h : BracketsFit (t :: ts)) :
    BracketsFit ts := by
  obtain ⟨stack, h⟩ := h
  rw [balanced] at h
  split at h
  · cases h
  · split at h
    · exact ⟨_, h⟩
    · exact ⟨_, h⟩
    · split at h
      · exact ⟨_, (Bool.and_eq_true_iff.mp h).2⟩
      · cases h

/-- Brackets that fit fit at the end of the run. -/
theorem BracketsFit.of_suffix {ts rest : List Token} (h : BracketsFit ts) (hrest : rest <:+ ts) :
    BracketsFit rest := by
  obtain ⟨taken, rfl⟩ := hrest
  induction taken with
  | nil => exact h
  | cons t taken ih => exact ih (bracketsFit_of_cons h)

/-- A run whose brackets the check accepts has beginnings that it accepts. -/
theorem balanced_of_append {stack : List Bracket} {ts more : List Token}
    (h : balanced stack (ts ++ more) = true) : balanced stack ts = true := by
  induction ts generalizing stack with
  | nil => rfl
  | cons t ts ih =>
      rw [List.cons_append, balanced] at h
      rw [balanced]
      split at h
      · cases h
      · rename_i hallowed
        rw [if_neg hallowed]
        split at h
        · exact ih h
        · exact ih h
        · split at h
          · obtain ⟨hfits, hmore⟩ := Bool.and_eq_true_iff.mp h
            exact Bool.and_eq_true_iff.mpr ⟨hfits, ih hmore⟩
          · cases h

/-- Brackets that fit fit at the beginning of the run. -/
theorem BracketsFit.of_prefix {ts part : List Token} (h : BracketsFit ts) (hpart : part <+: ts) :
    BracketsFit part := by
  obtain ⟨more, rfl⟩ := hpart
  obtain ⟨stack, h⟩ := h
  exact ⟨stack, balanced_of_append h⟩

/-- Where the brackets of a run fit they fit without the whitespace around it. -/
theorem bracketsFit_trim {ts : List Token} (h : balanced [] ts = true) :
    BracketsFit (trim ts) := by
  have hfront : BracketsFit (ts.dropWhile isWhitespace) :=
    BracketsFit.of_suffix ⟨[], h⟩ (List.dropWhile_suffix _)
  refine hfront.of_prefix ?_
  have hback := List.dropWhile_suffix isWhitespace (l := (ts.dropWhile isWhitespace).reverse)
  rw [← List.reverse_prefix, List.reverse_reverse] at hback
  exact hback

end Token

namespace TokenKind

theorem closes?_closing (b : Bracket) : b.closing.closes? = some b := by
  cases b <;> rfl

theorem closes?_eq_some {k : TokenKind} {b : Bracket} (h : k.closes? = some b) :
    k = b.closing := by
  unfold closes? at h
  split at h <;> cases h <;> rfl

theorem opensParen_eq (k : TokenKind) : k.opensParen = (k.opens? == some .round) := by
  cases k <;> rfl

theorem isRightParen_eq (k : TokenKind) : (k == .rightParen) = (k.closes? == some .round) := by
  cases k <;> rfl

/-- What opens a bracket closes none. -/
theorem closes?_of_opens? {k : TokenKind} {b : Bracket} (h : k.opens? = some b) :
    k.closes? = none := by
  cases k <;> first | rfl | cases h

theorem opens?_closing (b : Bracket) : b.closing.opens? = none := by
  cases b <;> rfl

end TokenKind

namespace Grammar

open Rule

variable {ts rest mid : List Token} {stack : List Bracket} {b : Bracket}

/-- **Brackets that fit can be paired**, up to the one that closes a bracket opened before.  An
inner bracket is paired first, and then the search for the outer one goes on. -/
theorem nested_of_balanced (h : Token.balanced (b :: stack) ts = true) :
    ∃ mid, Nested ts mid ∧
      (mid = [] ∨ ∃ t r, mid = t :: r ∧ t.kind = b.closing ∧ Token.balanced stack r = true) := by
  induction hsize : ts.length using Nat.strong_induction_on generalizing ts b stack with
  | _ size ih =>
      cases ts with
      | nil => exact ⟨[], Nested.nil, Or.inl rfl⟩
      | cons t ts =>
          have hshorter : ts.length < size := by
            rw [← hsize]
            exact Nat.lt_succ_self _
          rw [Token.balanced] at h
          split at h
          · cases h
          rename_i hallowed
          rw [Bool.not_eq_true] at hallowed
          cases hopens : t.kind.opens? with
          | some b' =>
              rw [hopens] at h
              obtain ⟨inner, hinside, rfl | ⟨u, r, rfl, hclose, hr⟩⟩ := ih _ hshorter h rfl
              · exact ⟨[], Nested.bracket hopens hinside (Or.inr ⟨rfl, rfl⟩) Nested.nil, Or.inl rfl⟩
              · have hclosed : closes b'.closing (u :: r) r := Or.inl ⟨u, rfl, hclose⟩
                have hlength : r.length < size := by
                  have hinner := hinside.suffix.length_le
                  rw [List.length_cons] at hinner
                  omega
                obtain ⟨mid, hmore, hend⟩ := ih _ hlength hr rfl
                exact ⟨mid, Nested.bracket hopens hinside hclosed hmore, hend⟩
          | none =>
              rw [hopens] at h
              cases hcloses : t.kind.closes? with
              | none =>
                  rw [hcloses] at h
                  obtain ⟨mid, hmore, hend⟩ := ih _ hshorter h rfl
                  exact ⟨mid, Nested.plain hallowed hopens hcloses hmore, hend⟩
              | some b' =>
                  rw [hcloses] at h
                  obtain ⟨hfits, hr⟩ := Bool.and_eq_true_iff.mp h
                  have hsame : b = b' := beq_iff_eq.mp hfits
                  refine ⟨t :: ts, Nested.nil, Or.inr ⟨t, ts, rfl, ?_, hr⟩⟩
                  rw [hsame]
                  exact TokenKind.closes?_eq_some hcloses

/-- How many parentheses are open behind a token that does not end the arguments. -/
theorem argumentTokens_cons (depth : Nat) (t : Token) (ts : List Token) :
    (Syntax.argumentTokens depth (t :: ts)).2 =
      if t.kind.closes? = some .round ∧ depth = 0 then t :: ts
      else
        (Syntax.argumentTokens
          (if t.kind.opens? = some .round then depth + 1
            else if t.kind.closes? = some .round then depth - 1 else depth) ts).2 := by
  rw [Syntax.argumentTokens]
  simp only [TokenKind.opensParen_eq, TokenKind.isRightParen_eq, Bool.and_eq_true, beq_iff_eq]
  split <;> rfl

/-- **Paired brackets leave the count as it was**: behind them the reader goes on as before them. -/
theorem Nested.argumentTokens_snd (h : Nested ts mid) (depth : Nat) :
    (Syntax.argumentTokens depth ts).2 = (Syntax.argumentTokens depth mid).2 := by
  induction h generalizing depth with
  | nil => rfl
  | plain _ hopens hcloses _ ih =>
      rw [argumentTokens_cons, hopens, hcloses]
      exact ih depth
  | @bracket t b ts inner after rest hopens _ close _ ihInside ihMore =>
      have hopened : (Syntax.argumentTokens depth (t :: ts)).2 =
          (Syntax.argumentTokens (if b = .round then depth + 1 else depth) inner).2 := by
        rw [argumentTokens_cons, hopens, TokenKind.closes?_of_opens? hopens, ← ihInside]
        simp
      have hclosed : (Syntax.argumentTokens (if b = .round then depth + 1 else depth) inner).2 =
          (Syntax.argumentTokens depth after).2 := by
        rcases close with ⟨u, rfl, hu⟩ | ⟨rfl, rfl⟩
        · have hkind : u.kind = b.closing := hu
          rw [argumentTokens_cons, hkind, TokenKind.closes?_closing, TokenKind.opens?_closing]
          cases b <;> simp
        · rfl
      rw [hopened, hclosed, ihMore depth]

/-- The reader of arguments drops the token at which they end. -/
theorem readArguments_rest (source : List Char) (stop : Nat) (ts : List Token) :
    (Syntax.readArguments source stop ts).2.2 = (Syntax.argumentTokens 0 ts).2.tail := by
  unfold Syntax.readArguments
  rcases Syntax.argumentTokens 0 ts with ⟨inside, rest⟩
  cases rest with
  | nil => rfl
  | cons close r => rfl

/-- What the grammar derives as arguments is what the reader takes. -/
theorem readArguments_of_arguments (source : List Char) (stop : Nat) (h : arguments ts rest) :
    (Syntax.readArguments source stop ts).2.2 = rest := by
  obtain ⟨mid, hvalue, hclose⟩ := h
  rw [readArguments_rest, Nested.argumentTokens_snd hvalue 0]
  rcases hclose with ⟨t, rfl, ht⟩ | ⟨rfl, rfl⟩
  · have ht' : t.kind = .rightParen := ht
    simp [Syntax.argumentTokens, ht']
  · rfl

/-- **Arguments are read as the grammar has them**, in a run whose brackets fit. -/
theorem arguments_iff (source : List Char) (stop : Nat)
    (h : Token.balanced (.round :: stack) ts = true) :
    arguments ts rest ↔ (Syntax.readArguments source stop ts).2.2 = rest := by
  constructor
  · exact readArguments_of_arguments source stop
  · intro hread
    obtain ⟨mid, hnested, hend⟩ := nested_of_balanced h
    have hderives : ∃ r, arguments ts r := by
      rcases hend with rfl | ⟨t, r, rfl, hclose, -⟩
      · exact ⟨[], [], hnested, Or.inr ⟨rfl, rfl⟩⟩
      · exact ⟨r, t :: r, hnested, Or.inl ⟨t, rfl, hclose⟩⟩
    obtain ⟨r, hr⟩ := hderives
    rw [← hread, readArguments_of_arguments source stop hr]
    exact hr

end Grammar

end Selectors

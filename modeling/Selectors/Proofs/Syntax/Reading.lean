import Selectors.Proofs.Syntax.Brackets

/-!
# Reading parts as the grammar has them

A reader takes the longest part that it can, and looks at most two tokens ahead.  The grammar lets a
part end anywhere.  That they agree is a matter of what may follow: behind a type selector comes no
bar with a name, behind whitespace no whitespace, behind the name of an attribute no bar but the one
of `|=`, and none of these can be taken for more of what stands before it.

* `Syntax.Reads` says what a reader leaves.
* `Syntax.skipSpace_of_spaces` reads gaps, `Syntax.reads_of_typeSelector` type selectors.
* `Syntax.attributeTest_iff` compares the reader of attribute selectors with their rule.
-/

namespace Selectors

namespace Syntax

open Rule Grammar

/-- A reader succeeds and leaves the rest of the run. -/
def Reads {α : Type} (x : Option (α × List Token)) (rest : List Token) : Prop :=
  ∃ a, x = some (a, rest)

variable {α : Type} {ts rest mid r : List Token} {source : List Char} {relative after : Bool}

/-- A reader that leaves nothing whatever has failed. -/
theorem eq_none_of_not_reads {x : Option (α × List Token)} (h : ∀ rest, ¬Reads x rest) :
    x = none := by
  cases hx : x with
  | none => rfl
  | some y => exact absurd ⟨y.1, hx⟩ (h y.2)

/-! ### Whitespace -/

/-- The run does not begin with whitespace. -/
def Unspaced (ts : List Token) : Prop :=
  ∀ t more, ts = t :: more → t.kind ≠ .whitespace

theorem unspaced_of_one {p : TokenKind → Prop} (hp : ¬p .whitespace) (h : one p ts rest) :
    Unspaced ts := by
  obtain ⟨t, rfl, ht⟩ := h
  intro u more heq hu
  cases heq
  rw [hu] at ht
  exact hp ht

theorem unspaced_of_bar (h : bar ts rest) : Unspaced ts :=
  unspaced_of_one (p := (· = .delim '|')) (by decide) h

/-- Behind whitespace stands no whitespace. -/
theorem unspaced_skipSpace (ts : List Token) : Unspaced (skipSpace ts) := by
  intro t more heq ht
  have hstop := List.head?_dropWhile_not Token.isWhitespace ts
  unfold skipSpace at heq
  rw [heq] at hstop
  have hnot : t.isWhitespace = false := by
    simpa using hstop
  rw [Token.isWhitespace, ht] at hnot
  cases hnot

/-- What is skipped is a gap of the grammar. -/
theorem spaces_skipSpace (ts : List Token) : spaces ts (skipSpace ts) := by
  induction ts with
  | nil => exact many_iff.mpr (Or.inl rfl)
  | cons t ts ih =>
      by_cases ht : t.kind = .whitespace
      · have hskip : skipSpace (t :: ts) = skipSpace ts :=
          List.dropWhile_cons_of_pos (beq_iff_eq.mpr ht)
        rw [hskip]
        exact many_iff.mpr (Or.inr ⟨ts, token_cons.mpr ⟨ht, rfl⟩, ih⟩)
      · have hskip : skipSpace (t :: ts) = t :: ts :=
          List.dropWhile_cons_of_neg (fun hspace => ht (beq_iff_eq.mp hspace))
        rw [hskip]
        exact many_iff.mpr (Or.inl rfl)

/-- Where no whitespace stands, none is skipped. -/
theorem skipSpace_of_unspaced (h : Unspaced ts) : skipSpace ts = ts := by
  cases ts with
  | nil => rfl
  | cons t ts =>
      have ht := h t ts rfl
      exact List.dropWhile_cons_of_neg fun hspace => ht (beq_iff_eq.mp hspace)

/-- **Whitespace is skipped to its end**, as the grammar has it where no more whitespace follows. -/
theorem skipSpace_of_spaces (h : spaces ts rest) (hrest : Unspaced rest) : skipSpace ts = rest := by
  induction h using Relation.ReflTransGen.head_induction_on with
  | refl => exact skipSpace_of_unspaced hrest
  | head hfirst _ ih =>
      obtain ⟨t, rfl, ht⟩ := hfirst
      rw [← ih]
      exact List.dropWhile_cons_of_pos (beq_iff_eq.mpr ht)

/-- A gap in a run that begins without whitespace is empty. -/
theorem eq_of_spaces (h : spaces ts rest) (hts : Unspaced ts) : rest = ts := by
  rcases many_iff.mp h with rfl | ⟨mid, hfirst, -⟩
  · rfl
  · obtain ⟨t, rfl, ht⟩ := hfirst
    exact absurd ht (hts t mid rfl)

/-! ### Names -/

/-- The identifiers of the reader are those of the grammar. -/
theorem identName_iff : Reads (identName? ts) rest ↔ ident ts rest := by
  constructor
  · intro h
    obtain ⟨name, h⟩ := h
    unfold identName? at h
    split at h
    · cases h
      exact ⟨_, rfl, _, rfl⟩
    · cases h
  · intro h
    obtain ⟨⟨k, i, j⟩, rfl, name, rfl⟩ := h
    exact ⟨name, rfl⟩

/-- The type names of the reader are those of the grammar. -/
theorem typeName_iff : Reads (typeName? ts) rest ↔ typeName ts rest := by
  constructor
  · intro h
    obtain ⟨name, h⟩ := h
    unfold typeName? at h
    split at h
    · cases h
      exact Or.inl ⟨_, rfl, _, rfl⟩
    · split at h
      · rename_i hc
        cases h
        exact Or.inr ⟨_, rfl, congrArg TokenKind.delim (beq_iff_eq.mp hc)⟩
      · cases h
    · cases h
  · intro h
    rcases h with ⟨⟨k, i, j⟩, rfl, name, rfl⟩ | ⟨⟨k, i, j⟩, rfl, rfl⟩
    · exact ⟨some name, rfl⟩
    · exact ⟨none, rfl⟩

/-- What a reader takes behind a bar. -/
theorem behindBar_iff {f g : List Token → Option (α × List Token)} {s : Rule}
    (hf : ∀ {ts rest}, Reads (f ts) rest ↔ s ts rest) (hnil : g [] = none)
    (hcons : ∀ t ts, g (t :: ts) = if t.kind == .delim '|' then f ts else none) :
    Reads (g ts) rest ↔ (bar ++ s) ts rest := by
  cases ts with
  | nil =>
      rw [hnil]
      constructor
      · intro h
        obtain ⟨a, h⟩ := h
        cases h
      · intro h
        obtain ⟨mid, hbar, -⟩ := h
        exact absurd hbar not_token_nil
  | cons t ts =>
      rw [hcons]
      by_cases ht : t.kind = .delim '|'
      · rw [if_pos (beq_iff_eq.mpr ht), hf]
        constructor
        · intro h
          exact ⟨ts, token_cons.mpr ⟨ht, rfl⟩, h⟩
        · intro h
          obtain ⟨mid, hbar, hname⟩ := h
          obtain ⟨-, rfl⟩ := token_cons.mp hbar
          exact hname
      · rw [if_neg (fun h => ht (beq_iff_eq.mp h))]
        constructor
        · intro h
          obtain ⟨a, h⟩ := h
          cases h
        · intro h
          obtain ⟨mid, hbar, -⟩ := h
          exact absurd (token_cons.mp hbar).1 ht

/-- The type names behind a bar are those of the grammar. -/
theorem afterBar_iff : Reads (afterBar? ts) rest ↔ (bar ++ typeName) ts rest :=
  behindBar_iff typeName_iff rfl fun _ _ => rfl

/-- The identifiers behind a bar are those of the grammar. -/
theorem identAfterBar_iff : Reads (identAfterBar? ts) rest ↔ (bar ++ ident) ts rest :=
  behindBar_iff identName_iff rfl fun _ _ => rfl

/-- A name is written alone, behind a bar, or behind a name and a bar. -/
theorem prefixed_iff {s : Rule} : (opt namespacePrefix ++ s) ts rest ↔
    s ts rest ∨ (bar ++ s) ts rest ∨ (typeName ++ (bar ++ s)) ts rest := by
  constructor
  · intro h
    obtain ⟨mid, rfl | ⟨a, rfl | hspace, hbar⟩, hname⟩ := h
    · exact Or.inl hname
    · exact Or.inr (Or.inl ⟨mid, hbar, hname⟩)
    · exact Or.inr (Or.inr ⟨a, hspace, mid, hbar, hname⟩)
  · intro h
    rcases h with hname | ⟨mid, hbar, hname⟩ | ⟨a, hspace, mid, hbar, hname⟩
    · exact ⟨ts, Or.inl rfl, hname⟩
    · exact ⟨mid, Or.inr ⟨ts, Or.inl rfl, hbar⟩, hname⟩
    · exact ⟨mid, Or.inr ⟨a, Or.inr hspace, hbar⟩, hname⟩

/-- What begins with a name begins with no bar. -/
theorem not_bar_of_typeName (h : typeName ts rest) (hbar : bar ts mid) : False := by
  obtain ⟨t, rfl, ht⟩ := hbar
  rcases h with ⟨u, hu, name, hname⟩ | ⟨u, hu, hstar⟩
  · cases hu
    rw [ht] at hname
    cases hname
  · cases hu
    rw [ht] at hstar
    exact absurd hstar (by decide)

/-- **A type selector is read** if it is not followed by a bar and a name. -/
theorem typeSelector_of_reads (h : Reads (typeSelector? ts) rest) : typeSelector ts rest := by
  obtain ⟨c, h⟩ := h
  rw [typeSelector, prefixed_iff]
  unfold typeSelector? at h
  split at h
  · rename_i hbar
    cases h
    exact Or.inr (Or.inl (afterBar_iff.mp ⟨_, hbar⟩))
  · split at h
    · cases h
    · rename_i hname
      split at h
      · rename_i hbar
        cases h
        exact Or.inr (Or.inr ⟨_, typeName_iff.mp ⟨_, hname⟩, afterBar_iff.mp ⟨_, hbar⟩⟩)
      · cases h
        exact Or.inl (typeName_iff.mp ⟨_, hname⟩)

/-- A type selector is read to its end, if no bar with a name follows it. -/
theorem reads_of_typeSelector (h : typeSelector ts rest)
    (hfollow : ∀ more, ¬(bar ++ typeName) rest more) : Reads (typeSelector? ts) rest := by
  have hnone : ∀ mid, typeName ts mid → afterBar? ts = none := by
    intro mid hname
    refine eq_none_of_not_reads fun more hread => ?_
    obtain ⟨_, hbar, -⟩ := afterBar_iff.mp hread
    exact not_bar_of_typeName hname hbar
  rw [typeSelector, prefixed_iff] at h
  rcases h with hname | hbar | ⟨mid, hspace, hbar⟩
  · obtain ⟨name, hread⟩ := typeName_iff.mpr hname
    have hlast : afterBar? rest = none :=
      eq_none_of_not_reads fun more hread => hfollow more (afterBar_iff.mp hread)
    refine ⟨.type .implied name, ?_⟩
    rw [typeSelector?, hnone rest hname, hread]
    simp only [hlast]
  · obtain ⟨name, hread⟩ := afterBar_iff.mpr hbar
    exact ⟨.type .absent name, by rw [typeSelector?, hread]⟩
  · obtain ⟨space, hread⟩ := typeName_iff.mpr hspace
    obtain ⟨name, hlast⟩ := afterBar_iff.mpr hbar
    refine ⟨.type (space.elim .any .named) name, ?_⟩
    rw [typeSelector?, hnone mid hspace, hread]
    simp only [hlast]

/-! ### Attribute selectors -/

/-- **Attribute names, soundly**: a name that is read is one of the grammar, with its prefix. -/
theorem attributeName_of_reads (h : Reads (attributeName? ts) rest) : attributeName ts rest := by
  obtain ⟨name, h⟩ := h
  rw [attributeName, prefixed_iff]
  unfold attributeName? at h
  split at h
  · obtain ⟨⟨n, r⟩, hread, heq⟩ := Option.map_eq_some_iff.mp h
    cases heq
    exact Or.inr (Or.inl (identAfterBar_iff.mp ⟨_, hread⟩))
  split at h
  · rename_i hstar
    obtain ⟨⟨n, r⟩, hread, heq⟩ := Option.map_eq_some_iff.mp h
    cases heq
    cases ts with
    | nil => cases hstar
    | cons t ts =>
        have hname : typeName (t :: ts) ts := Or.inr ⟨t, rfl, beq_iff_eq.mp hstar⟩
        exact Or.inr (Or.inr ⟨ts, hname, identAfterBar_iff.mp ⟨_, hread⟩⟩)
  split at h
  · cases h
  · rename_i hname
    have hident := identName_iff.mp ⟨_, hname⟩
    split at h
    · rename_i hbar
      cases h
      exact Or.inr (Or.inr ⟨_, Or.inl hident, identAfterBar_iff.mp ⟨_, hbar⟩⟩)
    · cases h
      exact Or.inl hident

/-- The name of an attribute is read if no bar with a name follows it. -/
theorem reads_of_attributeName (h : attributeName ts rest)
    (hfollow : ∀ more, ¬(bar ++ ident) rest more) : Reads (attributeName? ts) rest := by
  rw [attributeName, prefixed_iff] at h
  rcases h with hname | hbar | ⟨mid, hident | hstar, hbar⟩
  · obtain ⟨⟨k, i, j⟩, rfl, name, rfl⟩ := hname
    have hlast : identAfterBar? rest = none :=
      eq_none_of_not_reads fun more hread => hfollow more (identAfterBar_iff.mp hread)
    refine ⟨(.implied, name), ?_⟩
    simp [attributeName?, atDelim, identName?, hlast]
  · obtain ⟨name, hread⟩ := identAfterBar_iff.mpr hbar
    obtain ⟨mid, ⟨t, rfl, ht⟩, -⟩ := hbar
    refine ⟨(.absent, name), ?_⟩
    simp [attributeName?, atDelim, beq_iff_eq.mpr ht, hread]
  · obtain ⟨name, hread⟩ := identAfterBar_iff.mpr hbar
    obtain ⟨⟨k, i, j⟩, rfl, space, rfl⟩ := hident
    refine ⟨(.named space, name), ?_⟩
    simp [attributeName?, atDelim, identName?, hread]
  · obtain ⟨name, hread⟩ := identAfterBar_iff.mpr hbar
    obtain ⟨⟨k, i, j⟩, rfl, rfl⟩ := hstar
    refine ⟨(.any, name), ?_⟩
    simp [attributeName?, atDelim, hread]

/-- The marks that may stand before an equals sign. -/
theorem operatorOf?_iff {c : Char} :
    (∃ op, operatorOf? c = some op) ↔ c ∈ ['~', '|', '^', '$', '*'] := by
  constructor
  · intro h
    obtain ⟨op, h⟩ := h
    unfold operatorOf? at h
    split at h <;> first | decide | cases h
  · intro h
    simp only [List.mem_cons, List.not_mem_nil, or_false] at h
    rcases h with rfl | rfl | rfl | rfl | rfl <;> exact ⟨_, rfl⟩

/-- The comparisons of the reader are those of the grammar. -/
theorem operator_iff : Reads (attributeOperator? ts) rest ↔ operator ts rest := by
  constructor
  · intro h
    obtain ⟨op, h⟩ := h
    unfold attributeOperator? at h
    split at h
    · rename_i c i j r
      split at h
      · rename_i hc
        cases h
        exact Or.inl ⟨_, rfl, congrArg TokenKind.delim (beq_iff_eq.mp hc)⟩
      · split at h
        · rename_i op' hop
          have hmark : c ∈ ['~', '|', '^', '$', '*'] := operatorOf?_iff.mp ⟨_, hop⟩
          split at h
          · rename_i hsign
            cases h
            cases r with
            | nil => cases hsign
            | cons t r =>
                have hequals : token (.delim '=') (t :: r) r :=
                  token_cons.mpr ⟨beq_iff_eq.mp hsign, rfl⟩
                exact Or.inr ⟨t :: r, ⟨_, rfl, c, hmark, rfl⟩, hequals⟩
          · cases h
        · cases h
    · cases h
  · intro h
    rcases h with ⟨⟨k, i, j⟩, rfl, rfl⟩ | ⟨mid, ⟨⟨k, i, j⟩, rfl, c, hc, rfl⟩, ⟨t, rfl, ht⟩⟩
    · exact ⟨.equals, rfl⟩
    · have hsign : atDelim '=' (t :: rest) = true := beq_iff_eq.mpr ht
      obtain ⟨op, hop⟩ := operatorOf?_iff.mpr hc
      have hne : c ≠ '=' := by
        rintro rfl
        revert hc
        decide
      refine ⟨op, ?_⟩
      simp [attributeOperator?, hne, hop, hsign]

/-- The values of the reader are those of the grammar. -/
theorem value_iff : Reads (attributeValue? ts) rest ↔ value ts rest := by
  constructor
  · intro h
    obtain ⟨v, h⟩ := h
    unfold attributeValue? at h
    split at h
    · cases h
      exact Or.inl ⟨_, rfl, _, rfl⟩
    · cases h
      exact Or.inr ⟨_, rfl, _, rfl⟩
    · cases h
  · intro h
    rcases h with ⟨⟨k, i, j⟩, rfl, v, rfl⟩ | ⟨⟨k, i, j⟩, rfl, v, rfl⟩
    · exact ⟨v, rfl⟩
    · exact ⟨v, rfl⟩

/-- The closing bracket of the reader is that of the grammar, which may be left out at the end. -/
theorem closeBracket_iff : closeBracket? ts = some rest ↔ closes .rightBracket ts rest := by
  cases ts with
  | nil =>
      constructor
      · intro h
        cases h
        exact Or.inr ⟨rfl, rfl⟩
      · intro h
        rcases h with h | ⟨-, rfl⟩
        · exact absurd h not_token_nil
        · rfl
  | cons t ts =>
      by_cases ht : t.kind = .rightBracket
      · have hread : closeBracket? (t :: ts) = some ts := if_pos (beq_iff_eq.mpr ht)
        rw [hread]
        constructor
        · intro h
          cases h
          exact Or.inl (token_cons.mpr ⟨ht, rfl⟩)
        · intro h
          rcases h with h | ⟨h, -⟩
          · rw [(token_cons.mp h).2]
          · cases h
      · have hread : closeBracket? (t :: ts) = none := if_neg (fun h => ht (beq_iff_eq.mp h))
        rw [hread]
        constructor
        · intro h
          cases h
        · intro h
          rcases h with h | ⟨h, -⟩
          · exact absurd (token_cons.mp h).1 ht
          · cases h

/-- No bracket is closed where an operator stands. -/
theorem closeBracket?_of_operator (h : operator ts rest) : closeBracket? ts = none := by
  cases hclose : closeBracket? ts with
  | none => rfl
  | some mid =>
      rcases closeBracket_iff.mp hclose with ⟨t, rfl, ht⟩ | ⟨rfl, -⟩
      · have hkind : t.kind = .rightBracket := ht
        rcases h with h | ⟨a, h, -⟩
        · rw [(token_cons.mp h).1] at hkind
          cases hkind
        · obtain ⟨⟨c, -, hc⟩, -⟩ := one_cons.mp h
          rw [hc] at hkind
          cases hkind
      · rcases h with h | ⟨a, h, -⟩
        · exact absurd h not_token_nil
        · exact absurd h not_one_nil

/-- Behind a value stands a flag, or no name. -/
theorem caseFlag_iff :
    Reads (caseFlag? ts) rest ↔ (rest = ts ∧ ∀ more, ¬ident ts more) ∨ flag ts rest := by
  unfold caseFlag?
  cases hname : identName? ts with
  | none =>
      have hnot : ∀ more, ¬ident ts more := by
        intro more h
        obtain ⟨name, hread⟩ := identName_iff.mpr h
        rw [hname] at hread
        cases hread
      constructor
      · intro h
        obtain ⟨f, h⟩ := h
        cases h
        exact Or.inl ⟨rfl, hnot⟩
      · intro h
        rcases h with ⟨rfl, -⟩ | ⟨t, rfl, name, ht, -⟩
        · exact ⟨none, rfl⟩
        · exact absurd ⟨t, rfl, name, ht⟩ (hnot rest)
  | some x =>
      obtain ⟨name, more⟩ := x
      obtain ⟨⟨k, i, j⟩, rfl, name', rfl⟩ := identName_iff.mp ⟨name, hname⟩
      cases hname
      have hident : ident (⟨.ident name, i, j⟩ :: more) more := ⟨_, rfl, name, rfl⟩
      dsimp only
      constructor
      · intro h
        obtain ⟨f, h⟩ := h
        split at h
        · rename_i hi
          cases h
          exact Or.inr ⟨_, rfl, name, rfl, Or.inl hi⟩
        · split at h
          · rename_i hs
            cases h
            exact Or.inr ⟨_, rfl, name, rfl, Or.inr hs⟩
          · cases h
      · intro h
        rcases h with ⟨rfl, hnot⟩ | ⟨t, heq, name', ht, hletter⟩
        · exact absurd hident (hnot more)
        · cases heq
          cases ht
          by_cases hi : Text.sameLetters name "i" = true
          · exact ⟨some .insensitive, if_pos hi⟩
          · have hs := hletter.resolve_left hi
            exact ⟨some .sensitive, by rw [if_neg hi, if_pos hs]⟩

theorem unspaced_of_operator (h : operator ts rest) : Unspaced ts := by
  rcases h with h | ⟨mid, h, -⟩
  · exact unspaced_of_one (by decide) h
  · exact unspaced_of_one (by simp) h

theorem unspaced_of_ident (h : ident ts rest) : Unspaced ts :=
  unspaced_of_one (by simp) h

theorem unspaced_of_value (h : value ts rest) : Unspaced ts := by
  rcases h with h | h
  · exact unspaced_of_ident h
  · exact unspaced_of_one (by simp) h

/-- A flag is an identifier. -/
theorem ident_of_flag (h : flag ts rest) : ident ts rest := by
  obtain ⟨t, rfl, name, ht, -⟩ := h
  exact ⟨t, rfl, name, ht⟩

theorem unspaced_of_closes (h : closes .rightBracket ts rest) : Unspaced ts := by
  rcases h with h | ⟨rfl, -⟩
  · exact unspaced_of_one (by decide) h
  · intro t more heq
    cases heq

/-- Where a bracket is closed stands no name. -/
theorem not_ident_of_closes (h : closes .rightBracket ts rest) (hname : ident ts mid) : False := by
  obtain ⟨t, rfl, name, ht⟩ := hname
  rcases h with ⟨u, heq, hu⟩ | ⟨heq, -⟩
  · cases heq
    rw [ht] at hu
    cases hu
  · cases heq

/-- What follows a value is read up to the closing bracket: a flag, or none, with whitespace around
it. -/
theorem flagAndBracket_iff :
    (∃ f more, caseFlag? (skipSpace ts) = some (f, more) ∧
        closeBracket? (skipSpace more) = some rest) ↔
      ((spaces ++ opt (flag ++ spaces)) ++ closes .rightBracket) ts rest := by
  constructor
  · intro h
    obtain ⟨f, more, hflag, hclose⟩ := h
    have hclose' := closeBracket_iff.mp hclose
    rcases caseFlag_iff.mp ⟨f, hflag⟩ with ⟨rfl, -⟩ | hletter
    · rw [skipSpace_of_unspaced (unspaced_skipSpace ts)] at hclose'
      exact ⟨_, ⟨_, spaces_skipSpace ts, Or.inl rfl⟩, hclose'⟩
    · exact ⟨_, ⟨_, spaces_skipSpace ts, Or.inr ⟨more, hletter, spaces_skipSpace more⟩⟩, hclose'⟩
  · intro h
    obtain ⟨mid, ⟨a, hgap, hflag⟩, hclose⟩ := h
    have hunspaced := unspaced_of_closes hclose
    rcases hflag with rfl | ⟨b, hletter, hgap'⟩
    · have hnot : ∀ more, ¬ident mid more := fun more hname => not_ident_of_closes hclose hname
      obtain ⟨f, hflag⟩ := caseFlag_iff.mpr (Or.inl ⟨rfl, hnot⟩)
      refine ⟨f, mid, ?_, ?_⟩
      · rw [skipSpace_of_spaces hgap hunspaced]
        exact hflag
      · rw [skipSpace_of_unspaced hunspaced]
        exact closeBracket_iff.mpr hclose
    · obtain ⟨f, hflag⟩ := caseFlag_iff.mpr (Or.inr hletter)
      refine ⟨f, b, ?_, ?_⟩
      · rw [skipSpace_of_spaces hgap (unspaced_of_ident (ident_of_flag hletter))]
        exact hflag
      · rw [skipSpace_of_spaces hgap' hunspaced]
        exact closeBracket_iff.mpr hclose

/-- **A comparison is read** up to the closing bracket. -/
theorem attributeMatcher_iff : (∃ m f, attributeMatcher? ts = some (m, f, rest)) ↔
    (comparison ++ closes .rightBracket) ts rest := by
  simp only [attributeMatcher?, Option.bind_eq_bind, Option.bind_eq_some_iff, Option.pure_def,
    Option.some.injEq]
  constructor
  · intro h
    obtain ⟨m, f, ⟨op, a⟩, hop, ⟨v, b⟩, hvalue, ⟨fl, c⟩, hflag, d, hclose, heq⟩ := h
    cases heq
    have hop' := operator_iff.mp ⟨op, hop⟩
    have hvalue' := value_iff.mp ⟨v, hvalue⟩
    obtain ⟨mid, hflag', hclose'⟩ := flagAndBracket_iff.mp ⟨fl, c, hflag, hclose⟩
    exact ⟨mid, ⟨a, hop', _, spaces_skipSpace a, b, hvalue', hflag'⟩, hclose'⟩
  · intro h
    obtain ⟨mid, ⟨a, hop, a', hgap, b, hvalue, hflag⟩, hclose⟩ := h
    obtain ⟨op, hop'⟩ := operator_iff.mpr hop
    obtain ⟨v, hvalue'⟩ := value_iff.mpr hvalue
    obtain ⟨f, c, hflag', hclose'⟩ := flagAndBracket_iff.mpr ⟨mid, hflag, hclose⟩
    refine ⟨(op, v), f, (op, a), hop', (v, b), ?_, (f, c), hflag', rest, hclose', rfl⟩
    rw [skipSpace_of_spaces hgap (unspaced_of_value hvalue)]
    exact hvalue'

theorem unspaced_of_attributeName (h : attributeName ts rest) : Unspaced ts := by
  rw [attributeName, prefixed_iff] at h
  rcases h with h | ⟨mid, h, -⟩ | ⟨mid, h | h, -⟩
  · exact unspaced_of_ident h
  · exact unspaced_of_bar h
  · exact unspaced_of_ident h
  · exact unspaced_of_one (by decide) h

/-- What may follow the name of an attribute is no bar with a name: the bar of `|=` is followed by
its equals sign. -/
theorem not_bar_behind_attributeName
    (h : (spaces ++ (opt comparison ++ closes .rightBracket)) ts rest) (more : List Token) :
    ¬(bar ++ ident) ts more := by
  intro hbar
  obtain ⟨mid, ⟨t, rfl, ht⟩, ⟨u, rfl, name, hu⟩⟩ := hbar
  obtain ⟨a, hgap, b, hcomparison, hclose⟩ := h
  cases eq_of_spaces hgap (unspaced_of_bar ⟨t, rfl, ht⟩)
  rcases hcomparison with rfl | ⟨c, hop | ⟨d, ⟨v, heq, -⟩, hsign⟩, -⟩
  · rcases hclose with hclose | ⟨heq, -⟩
    · have hbracket := (token_cons.mp hclose).1
      rw [ht] at hbracket
      cases hbracket
    · cases heq
  · have hequals := (token_cons.mp hop).1
    rw [ht] at hequals
    exact absurd hequals (by decide)
  · cases heq
    have hequals := (token_cons.mp hsign).1
    rw [hu] at hequals
    cases hequals

/-- **An attribute selector is read** behind its opening bracket. -/
theorem attributeTest_iff : Reads (attributeTest? ts) rest ↔ attributeBody ts rest := by
  constructor
  · intro h
    obtain ⟨test, h⟩ := h
    unfold attributeTest? at h
    split at h
    · cases h
    rename_i space name r hname
    have hname' := attributeName_of_reads ⟨_, hname⟩
    split at h
    · rename_i hclose
      cases h
      exact ⟨_, spaces_skipSpace ts, r, hname', _, spaces_skipSpace r, _, Or.inl rfl,
        closeBracket_iff.mp hclose⟩
    · obtain ⟨⟨m, f, more⟩, hmatcher, heq⟩ := Option.map_eq_some_iff.mp h
      cases heq
      obtain ⟨b, hcomparison, hclose⟩ := attributeMatcher_iff.mp ⟨m, f, hmatcher⟩
      exact ⟨_, spaces_skipSpace ts, r, hname', _, spaces_skipSpace r, b, Or.inr hcomparison,
        hclose⟩
  · intro h
    obtain ⟨a, hgap, b, hname, hrest⟩ := h
    have hskip := skipSpace_of_spaces hgap (unspaced_of_attributeName hname)
    obtain ⟨⟨space, name⟩, hname'⟩ :=
      reads_of_attributeName hname (not_bar_behind_attributeName hrest)
    obtain ⟨c, hgap', d, rfl | hcomparison, hclose⟩ := hrest
    · have hskip' := skipSpace_of_spaces hgap' (unspaced_of_closes hclose)
      refine ⟨{ space, name, matcher := none, flag := none }, ?_⟩
      rw [attributeTest?, hskip, hname']
      simp only [hskip', closeBracket_iff.mpr hclose]
    · obtain ⟨e, hop, -⟩ := id hcomparison
      have hskip' := skipSpace_of_spaces hgap' (unspaced_of_operator hop)
      obtain ⟨m, f, hmatcher⟩ := attributeMatcher_iff.mpr ⟨d, hcomparison, hclose⟩
      refine ⟨{ space, name, matcher := some m, flag := f }, ?_⟩
      rw [attributeTest?, hskip, hname']
      simp only [hskip', closeBracket?_of_operator hop, hmatcher, Option.map_some]

end Syntax

end Selectors

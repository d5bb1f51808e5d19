import Selectors.Proofs.Syntax.Reading

/-!
# What the parser accepts

Simple selectors are read up to where a compound ends: at the end of the run, before whitespace and
before a combinator.  No simple selector and no type selector begins there, so a compound that the
grammar derives and that is followed by a combinator or by nothing is as long as the reader takes
it.  That settles compounds, and whole complex selectors by induction along their combinators.

* `SimpleSort` tells what may follow a pseudo-element from what may not, for components and rules.
* `Syntax.begins_of_compound` and `Syntax.endsCompound_of_combinator` part the tokens: no compound
  begins where one ends.
* `Syntax.readCompound_sound` and `Syntax.readCompound_complete` are the two halves for compounds.
* `ComplexNode.ofTokens_ok_iff` is the comparison for whole complex selectors.
-/

namespace Selectors

/-- The sorts of simple selectors, type selectors apart: after a pseudo-element only the last two
may follow. -/
inductive SimpleSort where
  | subclass
  | pseudoClass
  | pseudoElement
  deriving DecidableEq

namespace SimpleSort

def rule : SimpleSort → Rule
  | subclass => Grammar.subclass
  | pseudoClass => Grammar.pseudoClass
  | pseudoElement => Grammar.pseudoElement

end SimpleSort

def Component.sort : Component → SimpleSort
  | pseudoClass .. => .pseudoClass
  | pseudoElement .. => .pseudoElement
  | _ => .subclass

theorem Component.isPseudo_eq (c : Component) : c.isPseudo = (c.sort != .subclass) := by
  cases c <;> rfl

theorem Component.isPseudoElement_eq (c : Component) :
    c.isPseudoElement = (c.sort == .pseudoElement) := by
  cases c <;> rfl

namespace Syntax

open Rule Grammar

variable {ts rest mid r : List Token} {t : Token} {source : List Char} {start : Nat}
  {relative after : Bool} {c : Component} {k : SimpleSort}

/-! ### Simple selectors -/

/-- The reader takes a whole function, where the brackets fit. -/
theorem function_readArguments {name : String} {i j : Nat} (stop : Nat)
    (hfit : Token.BracketsFit (⟨.function name, i, j⟩ :: r)) :
    function (⟨.function name, i, j⟩ :: r) (readArguments source stop r).2.2 := by
  obtain ⟨stack, hfit⟩ := hfit
  have hinside : Token.balanced (.round :: stack) r = true := hfit
  exact ⟨r, one_cons.mpr ⟨⟨name, rfl⟩, rfl⟩, (arguments_iff source stop hinside).mpr rfl⟩

/-- The names that the parser knows are those of the grammar. -/
theorem isLegacyPseudoElement_iff {name : String} :
    isLegacyPseudoElement name = true ↔ IsLegacy name :=
  List.contains_iff_mem

/-- What is read behind a colon is derived. -/
theorem readPseudo_sound (hfit : Token.BracketsFit ts) (ht : t.kind = .colon)
    (h : readPseudo? source start ts = some (c, rest)) : c.sort.rule (t :: ts) rest := by
  have hcolon : token .colon (t :: ts) ts := token_cons.mpr ⟨ht, rfl⟩
  unfold readPseudo? at h
  cases ts with
  | nil => cases h
  | cons u us =>
      by_cases hu : u.kind = .colon
      · have hcolon' : token .colon (u :: us) us := token_cons.mpr ⟨hu, rfl⟩
        simp only [hu, beq_self_eq_true, if_true] at h
        split at h
        · cases h
          exact ⟨_, hcolon, Or.inr ⟨_, hcolon', Or.inl ⟨_, rfl, _, rfl⟩⟩⟩
        · have hfit' := Token.bracketsFit_of_cons hfit
          cases h
          exact ⟨_, hcolon, Or.inr ⟨_, hcolon', Or.inr (function_readArguments _ hfit')⟩⟩
        · cases h
      · have hnot : (u.kind == .colon) = false := beq_eq_false_iff_ne.mpr hu
        simp only [hnot, Bool.false_eq_true, if_false] at h
        split at h
        · rename_i heq
          cases heq
          split at h
          · rename_i hlegacy
            cases h
            exact ⟨_, hcolon, Or.inl ⟨_, rfl, _, rfl, isLegacyPseudoElement_iff.mp hlegacy⟩⟩
          · rename_i hlegacy
            cases h
            rw [isLegacyPseudoElement_iff] at hlegacy
            exact ⟨_, hcolon, Or.inl ⟨_, rfl, _, rfl, hlegacy⟩⟩
        · rename_i heq
          cases heq
          cases h
          exact ⟨_, hcolon, Or.inr (function_readArguments _ hfit)⟩
        · cases h

/-- What the grammar derives behind a colon is read. -/
theorem readPseudo_complete (hk : k ≠ .subclass) (h : k.rule (t :: ts) rest) :
    ∃ c, readPseudo? source start ts = some (c, rest) ∧ c.sort = k := by
  cases k with
  | subclass => exact absurd rfl hk
  | pseudoClass =>
      obtain ⟨mid, hcolon, hname⟩ := h
      obtain ⟨-, rfl⟩ := token_cons.mp hcolon
      rcases hname with ⟨⟨kind, i, j⟩, rfl, name, rfl, hname⟩ | ⟨r, hfunction, harguments⟩
      · refine ⟨.pseudoClass name none (slice source start j), ?_, rfl⟩
        simp [readPseudo?, isLegacyPseudoElement_iff, hname]
      · obtain ⟨⟨kind, i, j⟩, rfl, name, rfl⟩ := hfunction
        have hrest := readArguments_of_arguments source j harguments
        refine ⟨.pseudoClass name (some (readArguments source j r).1)
          (slice source start (readArguments source j r).2.1), ?_, rfl⟩
        simp [readPseudo?, hrest]
  | pseudoElement =>
      obtain ⟨mid, hcolon, hname⟩ := h
      obtain ⟨-, rfl⟩ := token_cons.mp hcolon
      rcases hname with ⟨⟨kind, i, j⟩, rfl, name, rfl, hlegacy⟩ | ⟨us, hcolon', hname⟩
      · refine ⟨.pseudoElement name none true (slice source start j), ?_, rfl⟩
        simp [readPseudo?, isLegacyPseudoElement_iff, hlegacy]
      · obtain ⟨u, rfl, hu⟩ := hcolon'
        have hdouble : (u.kind == TokenKind.colon) = true := beq_iff_eq.mpr hu
        rcases hname with ⟨⟨kind, i, j⟩, rfl, name, rfl⟩ | ⟨r, hfunction, harguments⟩
        · refine ⟨.pseudoElement name none false (slice source start j), ?_, rfl⟩
          simp [readPseudo?, hdouble]
        · obtain ⟨⟨kind, i, j⟩, rfl, name, rfl⟩ := hfunction
          have hrest := readArguments_of_arguments source j harguments
          refine ⟨.pseudoElement name (some (readArguments source j r).1) false
            (slice source start (readArguments source j r).2.1), ?_, rfl⟩
          simp [readPseudo?, hdouble, hrest]

/-- **Simple selectors, soundly**: what is read has a rule of its sort, where brackets fit. -/
theorem readSimple_sound (hfit : Token.BracketsFit (t :: r))
    (h : readSimple? source t r = some (c, rest)) : c.sort.rule (t :: r) rest := by
  unfold readSimple? at h
  split at h
  · rename_i name ht
    cases h
    exact Or.inl (one_cons.mpr ⟨⟨name, ht⟩, rfl⟩)
  · rename_i ht
    obtain ⟨⟨name, more⟩, hread, heq⟩ := Option.map_eq_some_iff.mp h
    cases heq
    exact Or.inr (Or.inl ⟨r, token_cons.mpr ⟨ht, rfl⟩, identName_iff.mp ⟨name, hread⟩⟩)
  · rename_i ht
    cases h
    exact Or.inr (Or.inr (Or.inr (token_cons.mpr ⟨ht, rfl⟩)))
  · rename_i ht
    obtain ⟨⟨test, more⟩, hread, heq⟩ := Option.map_eq_some_iff.mp h
    cases heq
    have hbody := attributeTest_iff.mp ⟨test, hread⟩
    exact Or.inr (Or.inr (Or.inl ⟨r, token_cons.mpr ⟨ht, rfl⟩, hbody⟩))
  · rename_i ht
    exact readPseudo_sound (Token.bracketsFit_of_cons hfit) ht h
  · cases h

/-- **Simple selectors, completely**: what a rule derives is read as a component of its sort. -/
theorem readSimple_complete (source : List Char) (h : k.rule (t :: r) rest) :
    ∃ c, readSimple? source t r = some (c, rest) ∧ c.sort = k := by
  by_cases hk : k = .subclass
  · subst hk
    rcases h with h | ⟨mid, hdot, hname⟩ | ⟨mid, hopen, hbody⟩ | h
    · obtain ⟨⟨name, ht⟩, rfl⟩ := one_cons.mp h
      exact ⟨.id name, by rw [readSimple?, ht], rfl⟩
    · obtain ⟨ht, rfl⟩ := token_cons.mp hdot
      obtain ⟨name, hread⟩ := identName_iff.mpr hname
      exact ⟨.class name, by simp only [readSimple?, ht, hread, Option.map_some], rfl⟩
    · obtain ⟨ht, rfl⟩ := token_cons.mp hopen
      obtain ⟨test, hread⟩ := attributeTest_iff.mpr hbody
      exact ⟨.attribute test, by simp only [readSimple?, ht, hread, Option.map_some], rfl⟩
    · obtain ⟨ht, rfl⟩ := token_cons.mp h
      exact ⟨.nesting, by simp only [readSimple?, ht], rfl⟩
  · have ht : t.kind = .colon := by
      cases k with
      | subclass => exact absurd rfl hk
      | pseudoClass =>
          obtain ⟨mid, hcolon, -⟩ := h
          exact (token_cons.mp hcolon).1
      | pseudoElement =>
          obtain ⟨mid, hcolon, -⟩ := h
          exact (token_cons.mp hcolon).1
    obtain ⟨c, hread, hsort⟩ := readPseudo_complete hk h
    exact ⟨c, by rw [readSimple?, ht, hread], hsort⟩

/-! ### Where compounds begin and end -/

/-- A simple selector begins where no compound ends and no type selector begins. -/
theorem begins_of_simple (h : k.rule ts mid) :
    endsCompound ts = false ∧ startsType ts = false := by
  cases k with
  | subclass =>
      rcases h with ⟨⟨kind, i, j⟩, rfl, name, rfl⟩ | ⟨_, ⟨⟨kind, i, j⟩, rfl, rfl⟩, -⟩ |
        ⟨_, ⟨⟨kind, i, j⟩, rfl, rfl⟩, -⟩ | ⟨⟨kind, i, j⟩, rfl, rfl⟩
      · exact ⟨rfl, rfl⟩
      · exact ⟨rfl, rfl⟩
      · exact ⟨rfl, rfl⟩
      · exact ⟨rfl, rfl⟩
  | pseudoClass =>
      obtain ⟨_, ⟨⟨kind, i, j⟩, rfl, rfl⟩, -⟩ := h
      exact ⟨rfl, rfl⟩
  | pseudoElement =>
      obtain ⟨_, ⟨⟨kind, i, j⟩, rfl, rfl⟩, -⟩ := h
      exact ⟨rfl, rfl⟩

/-- No compound ends where a type selector begins: the bar of `|name` is no `||`. -/
theorem begins_of_typeSelector (h : typeSelector ts rest) :
    endsCompound ts = false ∧ startsType ts = true := by
  have hname : ∀ {ts rest}, typeName ts rest → endsCompound ts = false ∧ startsType ts = true := by
    intro ts rest h
    rcases h with ⟨⟨kind, i, j⟩, rfl, name, rfl⟩ | ⟨⟨kind, i, j⟩, rfl, rfl⟩
    · exact ⟨rfl, rfl⟩
    · exact ⟨rfl, rfl⟩
  rw [typeSelector, prefixed_iff] at h
  rcases h with h | ⟨mid, ⟨⟨kind, i, j⟩, rfl, rfl⟩, h⟩ | ⟨mid, h, -⟩
  · exact hname h
  · rcases h with ⟨⟨kind', i', j'⟩, rfl, name, rfl⟩ | ⟨⟨kind', i', j'⟩, rfl, rfl⟩
    · exact ⟨rfl, rfl⟩
    · exact ⟨rfl, rfl⟩
  · exact hname h

theorem unspaced_of_begins (h : endsCompound ts = false) : Unspaced ts := by
  intro t more heq ht
  rw [heq] at h
  simp [endsCompound, Token.isWhitespace, ht] at h

/-- No combinator stands where a compound goes on. -/
theorem combinatorMark?_of_begins (h : endsCompound ts = false) : combinatorMark? ts = none := by
  unfold endsCompound at h
  obtain ⟨-, hmark⟩ := Bool.or_eq_false_iff.mp h
  exact Option.not_isSome_iff_eq_none.mp (Bool.eq_false_iff.mp hmark)

/-! ### Compounds -/

/-- The simple selectors one by one: behind a pseudo-element comes no other than a pseudo-class or
pseudo-element. -/
theorem simples_iff : simples after ts rest ↔
    rest = ts ∨ ∃ k mid, (after = true → k ≠ .subclass) ∧ SimpleSort.rule k ts mid ∧
      simples (after || k == .pseudoElement) mid rest := by
  cases after with
  | true =>
      simp only [simples, if_true, Bool.true_or, forall_const]
      rw [pseudos, many_iff]
      refine or_congr_right ?_
      constructor
      · intro h
        obtain ⟨mid, hclass | helement, hmore⟩ := h
        · exact ⟨.pseudoClass, mid, by decide, hclass, hmore⟩
        · exact ⟨.pseudoElement, mid, by decide, helement, hmore⟩
      · intro h
        obtain ⟨k, mid, hk, hsimple, hmore⟩ := h
        cases k with
        | subclass => exact absurd rfl hk
        | pseudoClass => exact ⟨mid, Or.inl hsimple, hmore⟩
        | pseudoElement => exact ⟨mid, Or.inr hsimple, hmore⟩
  | false =>
      constructor
      · intro h
        obtain ⟨mid, hfront, hback⟩ := h
        rcases many_iff.mp hfront with rfl | ⟨a, hfirst, hmore⟩
        · rcases hback with rfl | ⟨a, helement, hmore⟩
          · exact Or.inl rfl
          · exact Or.inr ⟨.pseudoElement, a, nofun, helement, hmore⟩
        · have hrest : simples false a rest := ⟨mid, hmore, hback⟩
          rcases hfirst with hsubclass | hclass
          · exact Or.inr ⟨.subclass, a, nofun, hsubclass, hrest⟩
          · exact Or.inr ⟨.pseudoClass, a, nofun, hclass, hrest⟩
      · intro h
        rcases h with rfl | ⟨k, a, -, hsimple, hmore⟩
        · exact ⟨_, many_iff.mpr (Or.inl rfl), Or.inl rfl⟩
        · cases k with
          | subclass =>
              obtain ⟨mid, hfront, hback⟩ := hmore
              exact ⟨mid, many_iff.mpr (Or.inr ⟨a, Or.inl hsimple, hfront⟩), hback⟩
          | pseudoClass =>
              obtain ⟨mid, hfront, hback⟩ := hmore
              exact ⟨mid, many_iff.mpr (Or.inr ⟨a, Or.inr hsimple, hfront⟩), hback⟩
          | pseudoElement =>
              exact ⟨ts, many_iff.mpr (Or.inl rfl), Or.inr ⟨a, hsimple, hmore⟩⟩

/-- **Rows, soundly**: a row that is read is derived, and it ends where a compound ends. -/
theorem readSimples_sound (hfit : Token.BracketsFit ts) {cs : List Component}
    (h : readSimples? source after ts = some (cs, rest)) :
    simples after ts rest ∧ endsCompound rest = true := by
  fun_induction readSimples? source after ts generalizing cs with
  | case1 after ts hends =>
      cases h
      exact ⟨simples_iff.mpr (Or.inl rfl), hends⟩
  | case2 after hbegins => exact absurd rfl hbegins
  | case3 => cases h
  | case4 => cases h
  | case5 after t r c mid hread _ hallowed _ ih =>
      obtain ⟨⟨cs', more⟩, hmore, heq⟩ := Option.map_eq_some_iff.mp h
      cases heq
      have hsimple := readSimple_sound hfit hread
      obtain ⟨hsimples, hends⟩ := ih (hfit.of_suffix (c.sort.rule.suffix hsimple)) hmore
      rw [c.isPseudoElement_eq] at hsimples
      refine ⟨simples_iff.mpr (Or.inr ⟨c.sort, mid, ?_, hsimple, hsimples⟩), hends⟩
      intro hafter hsort
      rw [c.isPseudo_eq, hafter, hsort] at hallowed
      exact hallowed rfl

/-- A row fails with its first simple selector. -/
theorem readSimples?_of_none (hends : ¬endsCompound (t :: r) = true)
    (h : readSimple? source t r = none) : readSimples? source after (t :: r) = none := by
  rw [readSimples?.eq_def, if_neg hends]
  dsimp only
  split
  · rfl
  · rename_i hsome
    rw [h] at hsome
    cases hsome

/-- A row reads its first simple selector and goes on behind it, unless a pseudo-element stands
before something else. -/
theorem readSimples?_of_some (hends : ¬endsCompound (t :: r) = true)
    (h : readSimple? source t r = some (c, rest)) :
    readSimples? source after (t :: r) =
      if after && !c.isPseudo then none
      else (readSimples? source (after || c.isPseudoElement) rest).map
        fun (cs, rest) => (c :: cs, rest) := by
  rw [readSimples?.eq_def, if_neg hends]
  dsimp only
  split
  · rename_i hnone
    rw [h] at hnone
    cases hnone
  · rename_i hsome
    rw [h] at hsome
    cases hsome
    rfl

/-- One more simple selector is read where the compound goes on. -/
theorem readSimples?_cons (hbegins : endsCompound (t :: r) = false)
    (hread : readSimple? source t r = some (c, mid))
    (hallowed : after = true → c.sort ≠ .subclass) :
    readSimples? source after (t :: r) =
      (readSimples? source (after || c.sort == .pseudoElement) mid).map
        fun (cs, rest) => (c :: cs, rest) := by
  have hpseudo : ¬(after && !c.isPseudo) = true := by
    rw [c.isPseudo_eq]
    simpa using hallowed
  rw [readSimples?_of_some (Bool.eq_false_iff.mp hbegins) hread, if_neg hpseudo,
    c.isPseudoElement_eq]

/-- **Rows, completely**: a derived row is read, if what follows ends a compound. -/
theorem readSimples_complete (source : List Char) (h : simples after ts rest)
    (hends : endsCompound rest = true) : Reads (readSimples? source after ts) rest := by
  induction hsize : ts.length using Nat.strong_induction_on generalizing ts after with
  | _ size ih =>
      rcases simples_iff.mp h with rfl | ⟨k, mid, hk, hsimple, hmore⟩
      · exact ⟨[], by rw [readSimples?.eq_def, if_pos hends]⟩
      · have hbegins := (begins_of_simple hsimple).1
        cases ts with
        | nil => cases hbegins
        | cons t r =>
            obtain ⟨c, hread, rfl⟩ := readSimple_complete source hsimple
            have hshorter : mid.length < size := by
              have hle := readSimple?_length hread
              rw [← hsize]
              exact Nat.lt_succ_of_le hle
            obtain ⟨cs, hcs⟩ := ih _ hshorter hmore rfl
            exact ⟨c :: cs, by rw [readSimples?_cons hbegins hread hk, hcs, Option.map_some]⟩

/-- **A compound is read to its end**, as the grammar has it where a compound may end. -/
theorem readCompound_sound (hfit : Token.BracketsFit ts)
    (h : Reads (readCompound? source ts) rest) :
    compound ts rest ∧ endsCompound rest = true := by
  obtain ⟨cs, h⟩ := h
  unfold readCompound? at h
  split at h
  · cases h
  rename_i hbegins
  have hfilled : endsCompound rest = true → rest ≠ ts := by
    rintro hends rfl
    exact hbegins hends
  split at h
  · split at h
    · cases h
    · rename_i c mid htype
      obtain ⟨⟨cs', more⟩, hmore, heq⟩ := Option.map_eq_some_iff.mp h
      cases heq
      have htype' := typeSelector_of_reads ⟨c, htype⟩
      obtain ⟨hsimples, hends⟩ :=
        readSimples_sound (hfit.of_suffix (typeSelector.suffix htype')) hmore
      exact ⟨⟨⟨mid, Or.inr htype', hsimples⟩, hfilled hends⟩, hends⟩
  · obtain ⟨hsimples, hends⟩ := readSimples_sound hfit h
    exact ⟨⟨⟨ts, Or.inl rfl, hsimples⟩, hfilled hends⟩, hends⟩

/-- A compound begins where none ends, with a type selector or without. -/
theorem begins_of_compound (h : compound ts rest) : endsCompound ts = false := by
  obtain ⟨⟨mid, rfl | htype, hsimples⟩, hne⟩ := h
  · rcases simples_iff.mp hsimples with rfl | ⟨k, a, -, hsimple, -⟩
    · exact absurd rfl hne
    · exact (begins_of_simple hsimple).1
  · exact (begins_of_typeSelector htype).1

/-- Behind a type selector and before the end of its compound stands no bar with a name. -/
theorem not_bar_before_simples (h : simples after ts rest) (hends : endsCompound rest = true) :
    ¬(bar ++ typeName) ts mid := by
  intro hbar
  have htype : typeSelector ts mid := by
    rw [typeSelector, prefixed_iff]
    exact Or.inr (Or.inl hbar)
  obtain ⟨hbegins, hstarts⟩ := begins_of_typeSelector htype
  rcases simples_iff.mp h with rfl | ⟨k, a, -, hsimple, -⟩
  · rw [hends] at hbegins
    cases hbegins
  · rw [(begins_of_simple hsimple).2] at hstarts
    cases hstarts

/-- **Compounds, completely**: a derived compound is read, if what follows ends a compound. -/
theorem readCompound_complete (source : List Char) (h : compound ts rest)
    (hends : endsCompound rest = true) : Reads (readCompound? source ts) rest := by
  have hbegins := begins_of_compound h
  unfold readCompound?
  rw [if_neg (by rw [hbegins]; decide)]
  obtain ⟨⟨mid, rfl | htype, hsimples⟩, hne⟩ := h
  · have hstarts : startsType mid = false := by
      rcases simples_iff.mp hsimples with rfl | ⟨k, a, -, hsimple, -⟩
      · exact absurd rfl hne
      · exact (begins_of_simple hsimple).2
    rw [if_neg (by rw [hstarts]; decide)]
    exact readSimples_complete source hsimples hends
  · obtain ⟨c, hread⟩ :=
      reads_of_typeSelector htype fun _ => not_bar_before_simples hsimples hends
    obtain ⟨cs, hcs⟩ := readSimples_complete source hsimples hends
    rw [if_pos (begins_of_typeSelector htype).2, hread]
    exact ⟨c :: cs, by simp only [hcs, Option.map_some]⟩

/-! ### Combinators -/

/-- The written combinators are the marks of the grammar. -/
theorem combinatorMark_iff : Reads (combinatorMark? ts) rest ↔ mark ts rest := by
  constructor
  · intro h
    obtain ⟨m, h⟩ := h
    unfold combinatorMark? at h
    split at h
    · cases h
      exact Or.inl ⟨_, rfl, rfl⟩
    · cases h
      exact Or.inr (Or.inl ⟨_, rfl, rfl⟩)
    · cases h
      exact Or.inr (Or.inr (Or.inl ⟨_, rfl, rfl⟩))
    · cases h
      exact Or.inr (Or.inr (Or.inr ⟨_, ⟨_, rfl, rfl⟩, ⟨_, rfl, rfl⟩⟩))
    · cases h
  · intro h
    rcases h with ⟨⟨kind, i, j⟩, rfl, rfl⟩ | ⟨⟨kind, i, j⟩, rfl, rfl⟩ | ⟨⟨kind, i, j⟩, rfl, rfl⟩ |
      ⟨mid, ⟨⟨kind, i, j⟩, rfl, rfl⟩, ⟨⟨kind', i', j'⟩, rfl, rfl⟩⟩
    · exact ⟨.child, rfl⟩
    · exact ⟨.nextSibling, rfl⟩
    · exact ⟨.subsequentSibling, rfl⟩
    · exact ⟨.column, rfl⟩

theorem unspaced_of_mark (h : mark ts rest) : Unspaced ts := by
  rcases h with h | h | h | ⟨mid, h, -⟩
  · exact unspaced_of_one (by decide) h
  · exact unspaced_of_one (by decide) h
  · exact unspaced_of_one (by decide) h
  · exact unspaced_of_bar h

/-- A compound ends before a written combinator. -/
theorem endsCompound_of_mark (h : mark ts rest) : endsCompound ts = true := by
  obtain ⟨m, hread⟩ := combinatorMark_iff.mpr h
  simp [endsCompound, hread]

/-- A compound ends where a combinator begins. -/
theorem endsCompound_of_combinator (h : combinator ts rest) : endsCompound ts = true := by
  have hspace : ∀ {mid}, token .whitespace ts mid → endsCompound ts = true := by
    intro mid h
    obtain ⟨t, rfl, ht⟩ := h
    have ht' : t.kind = .whitespace := ht
    simp [endsCompound, Token.isWhitespace, ht']
  rcases h with ⟨hgap, hne⟩ | ⟨a, hgap, b, hmark, -⟩
  · rcases many_iff.mp hgap with rfl | ⟨mid, hfirst, -⟩
    · exact absurd rfl hne
    · exact hspace hfirst
  · rcases many_iff.mp hgap with rfl | ⟨mid, hfirst, -⟩
    · exact endsCompound_of_mark hmark
    · exact hspace hfirst

/-- **Combinators, soundly**: where a compound ends before more tokens, a combinator is read.
Without whitespace in front this can only be a written one. -/
theorem readCombinator_sound (hne : ts ≠ []) (hends : endsCompound ts = true) :
    combinator ts (readCombinator ts).2 := by
  unfold readCombinator
  split
  · rename_i m r hmark
    exact Or.inr ⟨_, spaces_skipSpace ts, r, combinatorMark_iff.mp ⟨m, hmark⟩, spaces_skipSpace r⟩
  · rename_i hnone
    refine Or.inl ⟨spaces_skipSpace ts, fun hsame => ?_⟩
    have hsame' : skipSpace ts = ts := hsame
    have hunspaced := unspaced_skipSpace ts
    rw [hsame'] at hnone hunspaced
    cases ts with
    | nil => exact hne rfl
    | cons t r =>
        have ht := hunspaced t r rfl
        simp [endsCompound, Token.isWhitespace, ht, hnone] at hends

/-- **A combinator is read to its end**: the whitespace behind it is all skipped. -/
theorem readCombinator_complete (h : combinator ts mid) (hbegins : endsCompound mid = false) :
    (readCombinator ts).2 = mid := by
  have hunspaced := unspaced_of_begins hbegins
  rcases h with ⟨hgap, -⟩ | ⟨a, hgap, b, hmark, hgap'⟩
  · rw [readCombinator, skipSpace_of_spaces hgap hunspaced, combinatorMark?_of_begins hbegins]
  · obtain ⟨m, hread⟩ := combinatorMark_iff.mpr hmark
    rw [readCombinator, skipSpace_of_spaces hgap (unspaced_of_mark hmark), hread]
    exact skipSpace_of_spaces hgap' hunspaced

/-! ### Complex selectors -/

/-- **The compounds behind the first, soundly**: each is read with the combinator in front of it. -/
theorem readJoined_sound (hfit : Token.BracketsFit ts) (hends : endsCompound ts = true)
    {joined : List (CombinatorMark × List Component)} (h : readJoined? source ts = some joined) :
    many (combinator ++ compound) ts [] := by
  fun_induction readJoined? source ts generalizing joined with
  | case1 => exact many_iff.mpr (Or.inl rfl)
  | case2 => cases h
  | case3 t r cs rest hread _ ih =>
      obtain ⟨joined', hmore, -⟩ := Option.map_eq_some_iff.mp h
      have hcombinator := readCombinator_sound (List.cons_ne_nil t r) hends
      have hfit' := hfit.of_suffix (combinator.suffix hcombinator)
      obtain ⟨hcompound, hends'⟩ := readCompound_sound hfit' ⟨cs, hread⟩
      have hrest := ih (hfit'.of_suffix (compound.suffix hcompound)) hends' hmore
      exact many_iff.mpr (Or.inr ⟨rest, ⟨_, hcombinator, hcompound⟩, hrest⟩)

/-- A compound ends at the end of the run and before the next combinator. -/
theorem endsCompound_of_joined (h : many (combinator ++ compound) ts []) :
    endsCompound ts = true := by
  rcases many_iff.mp h with rfl | ⟨mid, ⟨a, hcombinator, -⟩, -⟩
  · rfl
  · exact endsCompound_of_combinator hcombinator

/-- The rest of a complex selector fails with its first compound. -/
theorem readJoined?_of_none (h : readCompound? source (readCombinator (t :: r)).2 = none) :
    readJoined? source (t :: r) = none := by
  rw [readJoined?]
  split
  · rfl
  · rename_i hsome
    rw [h] at hsome
    cases hsome

/-- The rest of a complex selector is its first combinator and compound, and what is read behind
them. -/
theorem readJoined?_cons {cs : List Component}
    (hread : readCompound? source (readCombinator (t :: r)).2 = some (cs, rest)) :
    readJoined? source (t :: r) =
      (readJoined? source rest).map (((readCombinator (t :: r)).1, cs) :: ·) := by
  rw [readJoined?]
  split
  · rename_i hnone
    rw [hread] at hnone
    cases hnone
  · rename_i hsome
    rw [hread] at hsome
    cases hsome
    rfl

/-- **The compounds behind the first, completely**: a derived row of them is read to the end. -/
theorem readJoined_complete (source : List Char) (h : many (combinator ++ compound) ts []) :
    ∃ joined, readJoined? source ts = some joined := by
  induction h using Relation.ReflTransGen.head_induction_on with
  | refl => exact ⟨[], by rw [readJoined?]⟩
  | @head ts rest hfirst hmore ih =>
      obtain ⟨joined, hjoined⟩ := ih
      obtain ⟨mid, hcombinator, hcompound⟩ := hfirst
      have hmid := readCombinator_complete hcombinator (begins_of_compound hcompound)
      obtain ⟨cs, hread⟩ := readCompound_complete source hcompound (endsCompound_of_joined hmore)
      rw [← hmid] at hread
      cases ts with
      | nil => cases hread
      | cons t r =>
          refine ⟨((readCombinator (t :: r)).1, cs) :: joined, ?_⟩
          rw [readJoined?_cons hread, hjoined, Option.map_some]

/-- A leading combinator is read only where the grammar lets one stand. -/
theorem readLeading_sound (h : Reads (readLeading? relative ts) rest) :
    leading relative ts rest := by
  obtain ⟨m, h⟩ := h
  unfold readLeading? at h
  split at h
  · rename_i m' r hmark
    split at h
    · rename_i hrelative
      cases h
      rw [leading, if_pos hrelative]
      exact Or.inr (Or.inr ⟨ts, many_iff.mpr (Or.inl rfl), r, combinatorMark_iff.mp ⟨m', hmark⟩,
        spaces_skipSpace r⟩)
    · cases h
  · cases h
    unfold leading
    split
    · exact Or.inl rfl
    · rfl

/-- A leading combinator that the grammar derives is read. -/
theorem readLeading_complete (h : leading relative ts rest) (hts : Unspaced ts)
    (hbegins : endsCompound rest = false) : Reads (readLeading? relative ts) rest := by
  have hnone : rest = ts → Reads (readLeading? relative ts) rest := by
    rintro rfl
    exact ⟨none, by rw [readLeading?, combinatorMark?_of_begins hbegins]⟩
  unfold leading at h
  split at h
  · rename_i hrelative
    rcases h with h | ⟨hgap, hne⟩ | ⟨a, hgap, b, hmark, hgap'⟩
    · exact hnone h
    · exact absurd (eq_of_spaces hgap hts) hne
    · cases eq_of_spaces hgap hts
      obtain ⟨m, hread⟩ := combinatorMark_iff.mpr hmark
      refine ⟨some m, ?_⟩
      rw [readLeading?, hread]
      simp only [hrelative, if_true, skipSpace_of_spaces hgap' (unspaced_of_begins hbegins)]
  · exact hnone h

/-- A trimmed run does not begin with whitespace. -/
theorem unspaced_trim (ts : List Token) : Unspaced (Token.trim ts) := by
  have hprefix : Token.trim ts <+: skipSpace ts := by
    have hback := List.dropWhile_suffix Token.isWhitespace (l := (skipSpace ts).reverse)
    rw [← List.reverse_prefix, List.reverse_reverse] at hback
    exact hback
  intro t more heq
  obtain ⟨behind, hbehind⟩ := hprefix
  rw [heq, List.cons_append] at hbehind
  exact unspaced_skipSpace ts t (more ++ behind) hbehind.symm

end Syntax

namespace ComplexNode

open Syntax Grammar

variable {ts : List Token} {source : List Char} {relative : Bool}

/-- **Complex selectors, soundly**: a run that is read is derived by the grammar. -/
theorem complex_of_read (hfit : Token.BracketsFit ts) {node : ComplexNode}
    (h : read? source relative ts = some node) : complex relative ts [] := by
  simp only [read?, Option.bind_eq_bind, Option.bind_eq_some_iff, Option.pure_def] at h
  obtain ⟨⟨m, a⟩, hleading, ⟨cs, b⟩, hfirst, joined, hjoined, -⟩ := h
  have hleading' := readLeading_sound ⟨m, hleading⟩
  have hfit' := hfit.of_suffix ((Grammar.leading relative).suffix hleading')
  obtain ⟨hfirst', hends⟩ := readCompound_sound hfit' ⟨cs, hfirst⟩
  have hjoined' := readJoined_sound (hfit'.of_suffix (compound.suffix hfirst')) hends hjoined
  exact ⟨a, hleading', b, hfirst', hjoined'⟩

/-- **Complex selectors, completely**: a derived run is read, if it does not begin with
whitespace. -/
theorem read_of_complex (source : List Char) (h : complex relative ts []) (hts : Unspaced ts) :
    ∃ node, read? source relative ts = some node := by
  obtain ⟨a, hleading, b, hfirst, hjoined⟩ := h
  obtain ⟨m, hleading'⟩ := readLeading_complete hleading hts (begins_of_compound hfirst)
  obtain ⟨cs, hfirst'⟩ := readCompound_complete source hfirst (endsCompound_of_joined hjoined)
  obtain ⟨joined, hjoined'⟩ := readJoined_complete source hjoined
  refine ⟨{ leading := m, first := cs, joined, text := sliceOf source ts }, ?_⟩
  simp only [read?, Option.bind_eq_bind, Option.bind_some, hleading', hfirst', hjoined',
    Option.pure_def]

/-- A run that one simple selector fills is read as nothing but that. -/
theorem read?_of_readSimple? {t : Token} {r : List Token} {c : Component}
    (hbegins : endsCompound (t :: r) = false) (hplain : startsType (t :: r) = false)
    (hread : readSimple? source t r = some (c, [])) :
    read? source false (t :: r) = some ⟨none, [c], [], sliceOf source (t :: r)⟩ := by
  have hmark : combinatorMark? (t :: r) = none := by
    simp only [endsCompound, Bool.or_eq_false_iff] at hbegins
    exact Option.not_isSome_iff_eq_none.mp (Bool.eq_false_iff.mp hbegins.2)
  have hleading : readLeading? false (t :: r) = some (none, t :: r) := by
    rw [readLeading?, hmark]
  have hnil : ∀ after, readSimples? source after [] = some ([], []) := fun after => by
    rw [readSimples?]
    rfl
  have hcompound : readCompound? source (t :: r) = some ([c], []) := by
    have hbegins' := Bool.eq_false_iff.mp hbegins
    rw [readCompound?, if_neg hbegins', if_neg (Bool.eq_false_iff.mp hplain),
      readSimples?_of_some hbegins' hread, hnil]
    rfl
  have hjoined : readJoined? source [] = some [] := by
    rw [readJoined?]
  simp only [read?, hleading, hcompound, hjoined, Option.bind_eq_bind, Option.bind_some,
    Option.pure_def]

/-- A run that is the only member of its list, with no whitespace around it. -/
theorem listOfTokens_of_read? {node : ComplexNode} (hsplit : Token.splitList ts = [ts])
    (htrim : Token.trim ts = ts) (hread : read? source relative ts = some node) :
    listOfTokens source relative ts = .ok [node] := by
  unfold listOfTokens
  rw [hsplit, List.mapM_cons, ofTokens, htrim, hread]
  rfl

/-- **The parser accepts exactly the grammar**: of the runs whose brackets fit, a complex selector
is read from those that the grammar derives once the whitespace around them is taken off. -/
theorem ofTokens_ok_iff (h : Token.balanced [] ts = true) (source : List Char) (relative : Bool) :
    (∃ node, ofTokens source relative ts = .ok node) ↔ complex relative (Token.trim ts) [] := by
  constructor
  · intro hok
    obtain ⟨node, hok⟩ := hok
    unfold ofTokens at hok
    split at hok
    · rename_i hread
      exact complex_of_read (Token.bracketsFit_trim h) hread
    · cases hok
  · intro hcomplex
    obtain ⟨node, hread⟩ := read_of_complex source hcomplex (unspaced_trim ts)
    exact ⟨node, by rw [ofTokens, hread]⟩

/-- A relative selector with a leading combinator, a prefix, all sorts of simple selectors and an
attribute flag is balanced, is derived and is read. -/
theorem ofTokens_ok_iff_relative :
    let stream := TokenStream.read "> a|b||*.c::before:not(x) [c|d|=e i"
    Token.balanced [] stream.tokens = true ∧
      complex true (Token.trim stream.tokens) [] ∧
      ¬complex false (Token.trim stream.tokens) [] := by
  intro stream
  have hfits : Token.balanced [] stream.tokens = true := by
    decide +kernel
  have hread : (ofTokens stream.source true stream.tokens).toOption.isSome = true := by
    decide +kernel
  have hrefused : (ofTokens stream.source false stream.tokens).toOption = none := by
    decide +kernel
  refine ⟨hfits, (ofTokens_ok_iff hfits stream.source true).mp ?_, fun hcomplex => ?_⟩
  · cases hok : ofTokens stream.source true stream.tokens with
    | error e =>
        rw [hok] at hread
        cases hread
    | ok node => exact ⟨node, rfl⟩
  · obtain ⟨node, hok⟩ := (ofTokens_ok_iff hfits stream.source false).mpr hcomplex
    rw [hok] at hrefused
    cases hrefused

end ComplexNode

end Selectors

import Mathlib.Data.List.Nodup
import Selectors.Proofs.Compiled.Words

/-!
# Three ways of counting brackets

The brackets of a run are paired with a stack: a closing bracket belongs to the innermost one that
is open.  No reader keeps such pairs.  The check keeps the kinds of the open brackets only, the
reader of arguments counts parentheses and no square brackets, and the splitter counts all brackets
without regard to their kind.  In a run that the check accepts the three come to the same: arguments
end at the bracket that is paired with the function, and the splitter's count is the number of
brackets that are open.

The reading goes on inside of what was cut out: members are cut out of a list, arguments out of a
member, and a list again out of the arguments.  The check looks at the whole run only, but it
accepts each of these parts by itself.

* `Pairing` pairs the brackets of a run, and `Pairing.exists_readFrom` reads a part of it above the
  brackets that were open before.
* `Syntax.argumentTokens_behind_round` says where the arguments of a function end.
* `CutFrom` are the parts that are read, and `CutFrom.bracketsAgree` is the result.
-/

namespace Selectors

open Token

/-- What is paired in a run up to a place: the open brackets and where each stands, the innermost
first, and the places of the pairs. -/
structure Pairing where
  opened : List (Bracket × Nat) := []
  pairs : List (Nat × Nat) := []
  deriving DecidableEq, Repr

namespace Pairing

/-- Reads a token.  A closing bracket is paired with the innermost open one, if the two fit. -/
def read (p : Pairing) (place : Nat) (k : TokenKind) : Pairing :=
  match k.opens?, k.closes?, p.opened with
  | some b, _, _ => { p with opened := (b, place) :: p.opened }
  | none, some b, (b', i) :: opened =>
    if b' = b then { opened, pairs := (i, place) :: p.pairs } else p
  | _, _, _ => p

/-- Reads a run that begins at the place. -/
def readFrom (p : Pairing) (place : Nat) : List Token → Pairing
  | [] => p
  | t :: ts => (p.read place t.kind).readFrom (place + 1) ts

/-- The brackets of a whole run. -/
def ofTokens (ts : List Token) : Pairing :=
  ({} : Pairing).readFrom 0 ts

variable {p : Pairing} {place i j : Nat} {k : TokenKind} {b : Bracket}
variable {ts before inside rest : List Token} {t f : Token}
variable {stack : List Bracket} {base : List (Bracket × Nat)}

/-- Two runs are paired one behind the other. -/
theorem readFrom_append (p : Pairing) (place : Nat) (ts us : List Token) :
    p.readFrom place (ts ++ us) =
      (p.readFrom place ts).readFrom (place + ts.length) us := by
  induction ts generalizing p place with
  | nil => rfl
  | cons t ts ih =>
      rw [List.cons_append, readFrom, ih, List.length_cons, Nat.add_right_comm, Nat.add_assoc]
      rfl

/-- The pairing of two runs reads the second one behind the first. -/
theorem ofTokens_append (ts us : List Token) :
    ofTokens (ts ++ us) = (ofTokens ts).readFrom ts.length us := by
  rw [ofTokens, readFrom_append, Nat.zero_add]
  rfl

/-- An opening bracket is open from its place on. -/
theorem read_of_opens (h : k.opens? = some b) :
    p.read place k = { p with opened := (b, place) :: p.opened } := by
  rw [read, h]

/-- A closing bracket is paired with the innermost one that is open. -/
theorem read_of_closes (hopens : k.opens? = none) (hcloses : k.closes? = some b)
    (hopened : p.opened = (b, i) :: base) :
    p.read place k = { opened := base, pairs := (i, place) :: p.pairs } := by
  rw [read, hopens, hcloses, hopened]
  exact if_pos rfl

/-- What opens and closes nothing changes no pair. -/
theorem read_of_neither (hopens : k.opens? = none) (hcloses : k.closes? = none) :
    p.read place k = p := by
  rw [read, hopens, hcloses]

/-! ### Above the brackets that were open before -/

/-- What is paired stays paired. -/
theorem mem_pairs_read {x : Nat × Nat} (hx : x ∈ p.pairs) : x ∈ (p.read place k).pairs := by
  unfold read
  split
  · exact hx
  · split
    · exact List.mem_cons_of_mem _ hx
    · exact hx
  · exact hx

/-- Pairs stay when more is read. -/
theorem mem_pairs_readFrom {x : Nat × Nat} (hx : x ∈ p.pairs) :
    x ∈ (p.readFrom place ts).pairs := by
  induction ts generalizing p place with
  | nil => exact hx
  | cons t ts ih => exact ih (mem_pairs_read hx)

/-- **A part that the check accepts by itself** leaves alone the brackets that were open before it:
those open behind it stand above them. -/
theorem exists_readFrom (above : List (Bracket × Nat)) (place : Nat)
    (hopened : p.opened = above ++ base)
    (h : Token.openAfter (above.map Prod.fst) ts = some stack) :
    ∃ above', (p.readFrom place ts).opened = above' ++ base ∧ above'.map Prod.fst = stack := by
  induction ts generalizing p place above with
  | nil =>
      cases h
      exact ⟨above, hopened, rfl⟩
  | cons t ts ih =>
      obtain ⟨stack₁, ht, hmore⟩ := openAfter_cons_eq_some_iff.mp h
      obtain ⟨-, ⟨b, hopens, rfl⟩ | ⟨b, hopens, hcloses, hstack⟩ | ⟨hopens, hcloses, rfl⟩⟩ :=
        TokenKind.nest_eq_some_iff.mp ht
      · refine ih ((b, place) :: above) (place + 1) ?_ hmore
        rw [read_of_opens hopens, hopened]
        rfl
      · obtain ⟨⟨b', i⟩, above₁, rfl, rfl, rfl⟩ := List.map_eq_cons_iff.mp hstack
        refine ih above₁ (place + 1) ?_ hmore
        rw [read_of_closes hopens hcloses hopened]
        rfl
      · refine ih above (place + 1) ?_ hmore
        rw [read_of_neither hopens hcloses, hopened]

/-- The open brackets are those that the check keeps. -/
theorem map_opened_ofTokens (h : Token.openAfter [] ts = some stack) :
    (ofTokens ts).opened.map Prod.fst = stack := by
  obtain ⟨above, hopened, rfl⟩ := exists_readFrom (p := {}) [] 0 rfl h
  rw [ofTokens, hopened, List.append_nil]

/-! ### Each bracket once -/

/-- Each opening bracket before the place is open or belongs to one pair. -/
structure Distinct (p : Pairing) (place : Nat) : Prop where
  nodup : (p.opened.map Prod.snd ++ p.pairs.map Prod.fst).Nodup
  lt : ∀ i ∈ p.opened.map Prod.snd ++ p.pairs.map Prod.fst, i < place

/-- Places that are taken below one place are taken below the next. -/
theorem Distinct.succ (h : p.Distinct place) : p.Distinct (place + 1) where
  nodup := h.nodup
  lt i hi := Nat.lt_succ_of_lt (h.lt i hi)

/-- One token takes its own place at most.  A closing bracket moves its partner from the open ones
to the pairs. -/
theorem Distinct.read (h : p.Distinct place) (k : TokenKind) :
    (p.read place k).Distinct (place + 1) := by
  unfold Pairing.read
  split
  · constructor
    · exact List.nodup_cons.mpr ⟨fun hmem => Nat.lt_irrefl _ (h.lt place hmem), h.nodup⟩
    · intro i hi
      rcases List.mem_cons.mp hi with rfl | hi
      · exact Nat.lt_succ_self _
      · exact Nat.lt_succ_of_lt (h.lt i hi)
  · rename_i b b' i opened _ _ hopened
    split
    · have hmoved : (opened.map Prod.snd ++ i :: p.pairs.map Prod.fst).Perm
          (p.opened.map Prod.snd ++ p.pairs.map Prod.fst) := by
        rw [hopened]
        exact List.perm_middle
      constructor
      · exact hmoved.nodup_iff.mpr h.nodup
      · intro j hj
        exact Nat.lt_succ_of_lt (h.lt j (hmoved.mem_iff.mp hj))
    · exact h.succ
  · exact h.succ

/-- A run takes its own places at most. -/
theorem Distinct.readFrom (h : p.Distinct place) (ts : List Token) :
    (p.readFrom place ts).Distinct (place + ts.length) := by
  induction ts generalizing p place with
  | nil => exact h
  | cons t ts ih =>
      rw [List.length_cons, Nat.add_comm ts.length, ← Nat.add_assoc]
      exact ih (h.read t.kind)

/-- **In a pairing no bracket has two partners.** -/
theorem distinct_ofTokens (ts : List Token) : (ofTokens ts).Distinct (0 + ts.length) := by
  have hempty : ({} : Pairing).Distinct 0 :=
    { nodup := List.nodup_nil, lt := fun _ hi => absurd hi List.not_mem_nil }
  exact hempty.readFrom ts

/-- A bracket has one partner. -/
theorem Distinct.eq_of_mem {place' : Nat} (h : p.Distinct place) (hi : (place', i) ∈ p.pairs)
    (hj : (place', j) ∈ p.pairs) : i = j :=
  congrArg Prod.snd (List.inj_on_of_nodup_map (List.nodup_append.mp h.nodup).2.1 hi hj rfl)

/-- A bracket that is open has no partner. -/
theorem Distinct.not_mem_pairs (h : p.Distinct place) (hi : (b, i) ∈ p.opened) :
    (i, j) ∉ p.pairs := fun hj =>
  (List.nodup_append.mp h.nodup).2.2 i (List.mem_map_of_mem hi) i (List.mem_map_of_mem hj) rfl

/-! ### The partner of a bracket -/

/-- Behind an opening bracket and a part that the check accepts by itself, the bracket is open below
those that the part leaves open. -/
theorem exists_opened_of_opens (before : List Token) (hopens : f.kind.opens? = some b)
    (hinside : Token.openAfter [] inside = some stack) :
    ∃ above, (ofTokens (before ++ f :: inside)).opened =
        above ++ (b, before.length) :: (ofTokens before).opened ∧ above.map Prod.fst = stack := by
  rw [ofTokens_append, readFrom, read_of_opens hopens]
  exact exists_readFrom [] _ rfl hinside

/-- **A bracket that is closed** is paired with the one behind the part that the check accepts with
nothing left open. -/
theorem mem_pairs_iff_of_closes (hopens : f.kind.opens? = some b)
    (hinside : Token.openAfter [] inside = some []) (hcloses : t.kind.closes? = some b) :
    (before.length, j) ∈ (ofTokens (before ++ f :: (inside ++ t :: rest))).pairs ↔
      j = before.length + 1 + inside.length := by
  have hpair : (before.length, before.length + 1 + inside.length) ∈
      (ofTokens (before ++ f :: (inside ++ t :: rest))).pairs := by
    obtain ⟨above, hopened, habove⟩ := exists_opened_of_opens before hopens hinside
    rw [List.map_eq_nil_iff.mp habove, List.nil_append] at hopened
    have hplain : t.kind.opens? = none := by
      rw [TokenKind.closes?_eq_some hcloses, TokenKind.opens?_closing]
    have hparts : before ++ f :: (inside ++ t :: rest) = (before ++ f :: inside) ++ t :: rest := by
      simp
    have hplace : (before ++ f :: inside).length = before.length + 1 + inside.length := by
      simp only [List.length_append, List.length_cons]
      omega
    rw [hparts, ofTokens_append, hplace, readFrom, read_of_closes hplain hcloses hopened]
    exact mem_pairs_readFrom List.mem_cons_self
  constructor
  · intro hj
    exact (distinct_ofTokens _).eq_of_mem hj hpair
  · rintro rfl
    exact hpair

/-- **A bracket that is never closed** has no partner. -/
theorem not_mem_pairs_of_open (before : List Token) (j : Nat) (hopens : f.kind.opens? = some b)
    (hinside : Token.openAfter [] inside = some stack) :
    (before.length, j) ∉ (ofTokens (before ++ f :: inside)).pairs := by
  obtain ⟨above, hopened, -⟩ := exists_opened_of_opens before hopens hinside
  refine (distinct_ofTokens _).not_mem_pairs (b := b) ?_
  rw [hopened]
  exact List.mem_append_right _ List.mem_cons_self

end Pairing

/-! ### Arguments -/

namespace Syntax

/-- **Arguments end where their function is closed**, or at the end of the run.  The brackets in
`inner` are open within the arguments, and the reader counts the round ones among them. -/
theorem argumentTokens_behind_round {inner stack stack' : List Bracket}
    {ts inside rest : List Token} (h : openAfter (inner ++ .round :: stack) ts = some stack')
    (hread : argumentTokens (inner.count .round) ts = (inside, rest)) :
    (rest = [] ∧ ∃ left, openAfter inner inside = some left) ∨
      ∃ close more, rest = close :: more ∧ close.kind = .rightParen ∧
        openAfter inner inside = some [] := by
  induction ts generalizing inner inside with
  | nil =>
      cases hread
      exact Or.inl ⟨rfl, inner, rfl⟩
  | cons t ts ih =>
      obtain ⟨stack₁, ht, hmore⟩ := openAfter_cons_eq_some_iff.mp h
      rcases TokenKind.nest_behind_round ht with ⟨hclose, rfl, rfl⟩ | ⟨inner', hnest, rfl⟩
      · rw [List.count_nil, argumentTokens_rightParen hclose] at hread
        cases hread
        exact Or.inr ⟨t, ts, rfl, hclose, rfl⟩
      · rw [argumentTokens_of_nest hnest] at hread
        obtain ⟨rfl, rfl⟩ := Prod.mk.inj hread
        rw [openAfter_cons, hnest]
        exact ih hmore rfl

end Syntax

/-! ### What is cut out of a run -/

/-- The runs that are read by themselves on the way through a run: members of lists, arguments of
functions, and in arguments the list that filters what is counted. -/
inductive CutFrom (whole : List Token) : List Token → Prop
  | whole : CutFrom whole whole
  | member {run m : List Token} (cut : CutFrom whole run) (hm : m ∈ splitList run) :
      CutFrom whole (trim m)
  | arguments {run before after : List Token} {f : Token} {name : String} (cut : CutFrom whole run)
      (hrun : run = before ++ f :: after) (hf : f.kind = .function name) :
      CutFrom whole (Syntax.argumentTokens 0 after).1
  | filter {run before after : List Token} {formula : AnB} (cut : CutFrom whole run)
      (hrun : Compile.cutAtOf? run = some (before, after))
      (hformula : AnB.ofTokens? before = some formula) : CutFrom whole after

/-- Where the arguments of a function end, if `before` stands before the function and `after` behind
it. -/
structure ArgumentsEnd (run before after : List Token) : Prop where
  /-- The arguments and what is left of the run. -/
  parts : (Syntax.argumentTokens 0 after).1 ++ (Syntax.argumentTokens 0 after).2 = after
  accepted : balanced [] (Syntax.argumentTokens 0 after).1 = true
  closing : ∀ t ∈ (Syntax.argumentTokens 0 after).2.head?, t.kind = .rightParen
  /-- What is left begins with the bracket that is paired with the function, and where nothing is
  left the function has no partner. -/
  paired : ∀ place, (before.length, place) ∈ (Pairing.ofTokens run).pairs ↔
    (Syntax.argumentTokens 0 after).2 ≠ [] ∧
      place = before.length + 1 + (Syntax.argumentTokens 0 after).1.length

/-- The check, the reader of arguments and the splitter agree about the brackets of a run. -/
structure BracketsAgree (run : List Token) : Prop where
  accepted : balanced [] run = true
  arguments : ∀ before f after name, run = before ++ f :: after → f.kind = .function name →
    ArgumentsEnd run before after
  /-- The splitter goes on behind each part with what it counts there. -/
  carried : ∀ before after, run = before ++ after →
    splitList run = continueWith (splitList before) (splitFrom (depthBehind 0 before) after)
  depth : ∀ before after, run = before ++ after →
    depthBehind 0 before = (Pairing.ofTokens before).opened.length
  /-- No bracket is closed at depth zero, where the count could not fall. -/
  closes : ∀ before t after, run = before ++ t :: after → t.kind.closes?.isSome = true →
    0 < depthBehind 0 before
  members : Members run (splitList run)

/-- **The arguments of a function end at the partner of its parenthesis**, or at the end of the
run. -/
theorem argumentsEnd_of_function {run before after : List Token} {f : Token} {name : String}
    {stack : List Bracket} (h : openAfter [] run = some stack) (hrun : run = before ++ f :: after)
    (hf : f.kind = .function name) : ArgumentsEnd run before after := by
  have hopens : f.kind.opens? = some .round := by
    rw [hf]
    rfl
  have hbehind : ∃ stack₁, openAfter ([] ++ .round :: stack₁) after = some stack := by
    rw [hrun] at h
    obtain ⟨stack₁, -, hmore⟩ := openAfter_append_eq_some_iff.mp h
    rw [openAfter_cons, hf] at hmore
    exact ⟨stack₁, hmore⟩
  obtain ⟨stack₁, hafter⟩ := hbehind
  have hparts := Syntax.argumentTokens_append 0 after
  rcases hread : Syntax.argumentTokens 0 after with ⟨inside, rest⟩
  rw [hread] at hparts
  obtain rfl : inside ++ rest = after := hparts
  subst hrun
  rcases Syntax.argumentTokens_behind_round hafter hread with ⟨rfl, left, hleft⟩ |
    ⟨close, more, rfl, hclose, hinside⟩
  · refine ⟨by rw [hread], ?_, ?_, fun place => ?_⟩
    · rw [hread, balanced_eq, hleft]
      rfl
    · rw [hread]
      exact fun _ ht => absurd ht (by simp)
    · rw [hread, List.append_nil]
      have hnone := Pairing.not_mem_pairs_of_open before place hopens hleft
      exact ⟨fun hmem => absurd hmem hnone, fun hne => absurd rfl hne.1⟩
  · refine ⟨by rw [hread], ?_, ?_, fun place => ?_⟩
    · rw [hread, balanced_eq, hinside]
      rfl
    · rw [hread]
      rintro t ht
      cases ht
      exact hclose
    · rw [hread]
      have hcloses : close.kind.closes? = some .round := by
        rw [hclose]
        rfl
      rw [Pairing.mem_pairs_iff_of_closes hopens hinside hcloses]
      exact (and_iff_right (List.cons_ne_nil close more)).symm

/-- A part that the check accepts has its brackets counted in one way. -/
theorem bracketsAgree_of_openAfter {run : List Token} {stack : List Bracket}
    (h : openAfter [] run = some stack) : BracketsAgree run where
  accepted := by
    rw [balanced_eq, h]
    rfl
  arguments _ _ _ _ hrun hf := argumentsEnd_of_function h hrun hf
  carried before after hrun := by
    rw [hrun]
    exact splitFrom_depthBehind 0 before after
  depth before after hrun := by
    rw [hrun] at h
    obtain ⟨stack₁, hbefore, -⟩ := openAfter_append_eq_some_iff.mp h
    rw [← List.length_map Prod.fst, Pairing.map_opened_ofTokens hbefore]
    have hdepth := depthBehind_of_openAfter hbefore
    exact hdepth
  closes before t after hrun ht := by
    rw [hrun] at h
    obtain ⟨stack₁, hbefore, hmore⟩ := openAfter_append_eq_some_iff.mp h
    obtain ⟨stack₂, hnest, -⟩ := openAfter_cons_eq_some_iff.mp hmore
    have hdepth := depthBehind_of_openAfter hbefore
    obtain ⟨b, hb⟩ := Option.isSome_iff_exists.mp ht
    rw [List.length_nil] at hdepth
    rw [hdepth]
    obtain ⟨-, ⟨b', hopens, -⟩ | ⟨b', -, -, rfl⟩ | ⟨-, hcloses, -⟩⟩ :=
      TokenKind.nest_eq_some_iff.mp hnest
    · rw [TokenKind.closes?_of_opens? hopens] at hb
      cases hb
    · exact Nat.succ_pos _
    · rw [hcloses] at hb
      cases hb
  members := members_splitList h

/-- **The check accepts whatever is cut out of a run that it accepts.** -/
theorem CutFrom.exists_openAfter {ts run : List Token} (h : balanced [] ts = true)
    (hcut : CutFrom ts run) : ∃ stack, openAfter [] run = some stack := by
  induction hcut with
  | whole => exact Token.exists_openAfter h
  | member _ hm ih =>
      obtain ⟨stack, hrun⟩ := ih
      obtain ⟨-, -, stack', -, hopen, -⟩ := mem_splitList hrun hm
      exact ⟨stack', openAfter_trim hopen⟩
  | arguments _ hrun hf ih =>
      obtain ⟨stack, hopen⟩ := ih
      exact Token.exists_openAfter (argumentsEnd_of_function hopen hrun hf).accepted
  | filter _ hrun hformula ih =>
      obtain ⟨stack, hopen⟩ := ih
      obtain ⟨word, hword, rfl⟩ := Compile.exists_of_cutAtOf? hrun
      rw [openAfter_append, AnB.openAfter_of_ofTokens? hformula, Option.bind_some, openAfter_cons,
        Compile.nest_of_isOf hword] at hopen
      exact ⟨stack, hopen⟩

/-- **The three ways of counting brackets agree** in a run that the check accepts, and in whatever
is cut out of it to be read by itself. -/
theorem CutFrom.bracketsAgree {ts run : List Token} (h : balanced [] ts = true)
    (hcut : CutFrom ts run) : BracketsAgree run := by
  obtain ⟨stack, hopen⟩ := hcut.exists_openAfter h
  exact bracketsAgree_of_openAfter hopen

/-- A text whose first function is never closed, with one in its arguments that is. -/
def unclosedText : List Token :=
  (TokenStream.read ":is([a], :not([b]), c").tokens

/-- A text with an open parenthesis: the check accepts it, the first parenthesis has no partner, and
the others have theirs. -/
theorem bracketsAgree_unclosedText :
    balanced [] unclosedText = true ∧
      Pairing.ofTokens unclosedText =
        { opened := [(.round, 1)], pairs := [(8, 12), (9, 11), (2, 4)] } ∧
      BracketsAgree unclosedText ∧
      BracketsAgree (Syntax.argumentTokens 0 (unclosedText.drop 2)).1 := by
  have h : balanced [] unclosedText = true := by decide +kernel
  have hrun : unclosedText =
      unclosedText.take 1 ++ ⟨.function "is", 1, 4⟩ :: unclosedText.drop 2 := by
    decide +kernel
  exact ⟨h, by decide +kernel, CutFrom.whole.bracketsAgree h,
    (CutFrom.whole.arguments hrun rfl).bracketsAgree h⟩

end Selectors

import Selectors.Proofs.Syntax.Completing

/-!
# Reading a run in a function

A colon, the name of a function and a run that is completed up to the parenthesis of the function
are read as one pseudo-class.  No comma divides the run, because the parenthesis is open before each
of them, and the arguments complete what was put into the function.

* `Syntax.Wraps` says that a run is put into a function.
* `Syntax.Wraps.listOfTokens_eq` is what is read of it.
-/

namespace Selectors

open Token

namespace Syntax

variable {stack stack' inner : List Bracket} {ts us r : List Token} {name : String}

/-- Arguments go to the end of a run that closes nothing but what it opens. -/
theorem argumentTokens_of_openAfter (h : openAfter inner ts = some stack) :
    argumentTokens (inner.count .round) ts = (ts, []) := by
  induction ts generalizing inner with
  | nil => rfl
  | cons t ts ih =>
      obtain ⟨inner', hnest, hopen⟩ := openAfter_cons_eq_some_iff.mp h
      rw [argumentTokens_of_nest hnest, ih hopen]

/-- No comma divides what stands in a parenthesis that ends the run. -/
theorem splitFrom_of_argumentTokens (h : openAfter (inner ++ .round :: stack) us = some stack')
    (hend : (argumentTokens (inner.count .round) us).2.tail = []) :
    splitFrom (inner ++ .round :: stack).length us = [us] := by
  induction us generalizing inner with
  | nil => rfl
  | cons u us ih =>
      obtain ⟨stack₁, hnest, hopen⟩ := openAfter_cons_eq_some_iff.mp h
      have hcomma : u.kind = .comma → (inner ++ .round :: stack).length ≠ 0 := by
        intro _
        simp
      rw [splitFrom_cons hcomma, depthAfter_of_nest hnest]
      rcases TokenKind.nest_behind_round hnest with ⟨hclose, rfl, rfl⟩ | ⟨inner', hnest', rfl⟩
      · rw [List.count_nil, argumentTokens_rightParen hclose] at hend
        obtain rfl : us = [] := hend
        rfl
      · rw [argumentTokens_of_nest hnest'] at hend
        rw [ih hopen hend]
        rfl

/-- A colon and a function, and behind them a run that completes the given one and may close the
parenthesis of the function. -/
structure Wraps (name : String) (ts us : List Token) : Prop where
  opens : ∃ stack, openAfter [] ts = some stack
  shape : ∃ i j i' j' r, us = ⟨.colon, i, j⟩ :: ⟨.function name, i', j'⟩ :: r ∧
    Completes [.round] ts r
  last : ∀ t ∈ us.getLast?, t.isWhitespace = false

/-- What begins behind the opening is shorter by two tokens. -/
theorem Wraps.length_lt {args rest : List Token} (h : Wraps name ts us)
    (htail : us.tail.tail = args ++ rest) : args.length + 1 < us.length := by
  obtain ⟨i, j, i', j', r, rfl, -⟩ := h.shape
  obtain rfl : r = args ++ rest := htail
  simp only [List.length_cons, List.length_append]
  omega

/-- The arguments of the function complete the run, and nothing is behind them. -/
theorem arguments_of_wraps (hts : openAfter [] ts = some stack) (hr : Completes [.round] ts r)
    (hlast : ∀ t ∈ r.getLast?, t.isWhitespace = false) :
    Completes [] ts (argumentTokens 0 r).1 ∧ (argumentTokens 0 r).2.tail = [] := by
  have hparts := argumentTokens_completes (show Completes ([] ++ [.round]) ts r from hr)
  rw [List.count_nil] at hparts
  have hall : argumentTokens 0 ts = (ts, []) := argumentTokens_of_openAfter hts
  rw [hall] at hparts
  have hsuffix : (argumentTokens 0 r).2 <:+ r := ⟨_, argumentTokens_append 0 r⟩
  have hbehind : Completed 0 (argumentTokens 0 r).2.tail.length [] (argumentTokens 0 r).2.tail :=
    ⟨⟨[], List.not_mem_nil, hparts.2⟩,
      last_of_suffix hlast ((List.tail_suffix _).trans hsuffix), Nat.le_refl _, Nat.le_refl _⟩
  exact ⟨hparts.1, hbehind.eq_nil⟩

/-- The reader of a function whose arguments go to the end. -/
theorem read?_of_argumentTokens (source : List Char) (name : String) (i j i' j' : Nat)
    (hend : (argumentTokens 0 r).2.tail = []) :
    ∃ text whole, ComplexNode.read? source false
        (⟨.colon, i, j⟩ :: ⟨.function name, i', j'⟩ :: r) =
      some ⟨none, [.pseudoClass name (some (readArguments source j' r).1) text], [], whole⟩ := by
  have hrest : (readArguments source j' r).2.2 = [] :=
    (Grammar.readArguments_rest source j' r).trans hend
  obtain ⟨text, hsimple⟩ : ∃ text,
      readSimple? source ⟨.colon, i, j⟩ (⟨.function name, i', j'⟩ :: r) =
        some (.pseudoClass name (some (readArguments source j' r).1) text, []) :=
    ⟨_, by rw [← hrest]; rfl⟩
  exact ⟨text, _, ComplexNode.read?_of_readSimple? rfl rfl hsimple⟩

/-- **A run in a function** is read as one pseudo-class with arguments that complete the run. -/
theorem Wraps.listOfTokens_eq (h : Wraps name ts us) (source : List Char) :
    ∃ args text whole rest, Completes [] ts args.tokens ∧ us.tail.tail = args.tokens ++ rest ∧
      rest.length ≤ 1 ∧ ComplexNode.listOfTokens source false us =
        .ok [⟨none, [.pseudoClass name (some args) text], [], whole⟩] := by
  obtain ⟨stack, hts⟩ := h.opens
  obtain ⟨i, j, i', j', r, rfl, hr⟩ := h.shape
  have hlast : ∀ t ∈ r.getLast?, t.isWhitespace = false :=
    last_of_suffix h.last ((List.suffix_cons _ r).trans (List.suffix_cons _ _))
  obtain ⟨hcompletes, hend⟩ := arguments_of_wraps hts hr hlast
  obtain ⟨stack', hopen⟩ := hr.openAfter
  have hsplit : splitList (⟨.colon, i, j⟩ :: ⟨.function name, i', j'⟩ :: r) =
      [⟨.colon, i, j⟩ :: ⟨.function name, i', j'⟩ :: r] := by
    have hinside : splitFrom 1 r = [r] :=
      splitFrom_of_argumentTokens (show openAfter ([] ++ [.round]) r = some stack' from hopen) hend
    unfold splitList
    rw [splitFrom_cons (by simp), splitFrom_cons (by simp)]
    change ((splitFrom 1 r).modifyHead _).modifyHead _ = _
    rw [hinside]
    rfl
  have htrim : trim (⟨.colon, i, j⟩ :: ⟨.function name, i', j'⟩ :: r) =
      ⟨.colon, i, j⟩ :: ⟨.function name, i', j'⟩ :: r :=
    trim_of_bare ⟨fun t ht => by cases ht; rfl, h.last⟩
  obtain ⟨text, whole, hread⟩ := read?_of_argumentTokens source name i j i' j' hend
  have hrest := congrArg List.length hend
  rw [List.length_tail, List.length_nil] at hrest
  refine ⟨(readArguments source j' r).1, text, whole, (argumentTokens 0 r).2, ?_, ?_, by omega, ?_⟩
  · rw [readArguments_tokens]
    exact hcompletes
  · rw [readArguments_tokens]
    exact (argumentTokens_append 0 r).symm
  · exact ComplexNode.listOfTokens_of_read? hsplit htrim hread

/-! ### Kinds -/

/-- A run that ends with a parenthesis does not end with whitespace. -/
theorem last_of_kinds {ks : List TokenKind} (h : us.map kind = ks ++ [.rightParen]) :
    ∀ t ∈ us.getLast?, t.isWhitespace = false := by
  intro t ht
  have hlast : us.getLast?.map kind = some .rightParen := by
    rw [← List.getLast?_map, h, List.getLast?_concat]
  rw [ht] at hlast
  have hkind : t.kind = .rightParen := Option.some.inj hlast
  exact beq_eq_false_iff_ne.mpr fun hspace => by cases hspace.symm.trans hkind

/-- A run is put into a function if it is read between the opening and some closing parentheses. -/
theorem Wraps.of_kinds (more : List TokenKind) (hts : openAfter [] ts = some stack)
    (hkinds : us.map kind =
      .colon :: .function name :: (ts.map kind ++ (more ++ [.rightParen])))
    (hmore : ∀ k ∈ more, k = .rightParen) (hus : openAfter [] us = some stack') :
    Wraps name ts us := by
  have hlast : ∀ t ∈ us.getLast?, t.isWhitespace = false := by
    have hconcat : us.map kind =
        (.colon :: .function name :: (ts.map kind ++ more)) ++ [.rightParen] := by
      rw [hkinds]
      simp
    exact last_of_kinds hconcat
  obtain ⟨⟨k, i, j⟩, us, rfl, hk, hbehind⟩ := List.map_eq_cons_iff.mp hkinds
  obtain ⟨⟨k', i', j'⟩, r, rfl, hk', hinside⟩ := List.map_eq_cons_iff.mp hbehind
  obtain rfl : k = .colon := hk
  obtain rfl : k' = .function name := hk'
  obtain ⟨same, closing, rfl, hsame, hclosing⟩ := List.map_eq_append_iff.mp hinside
  refine ⟨⟨stack, hts⟩, ⟨i, j, i', j', same ++ closing, rfl, ?_⟩, hlast⟩
  refine .of_append hsame.symm (fun u hu => Or.inr ?_) hus
  have hu : u.kind ∈ more ++ [.rightParen] := hclosing ▸ List.mem_map_of_mem hu
  rcases List.mem_append.mp hu with hu | hu
  · exact hmore _ hu
  · exact List.mem_singleton.mp hu

/-- **A run in two functions**: the arguments of the outer one are the run in the inner one. -/
theorem Wraps.of_kinds_twice {outer : String} (hts : openAfter [] ts = some stack)
    (hkinds : us.map kind = .colon :: .function outer :: .colon :: .function name ::
      (ts.map kind ++ [.rightParen, .rightParen]))
    (hus : openAfter [] us = some stack') :
    ∃ inner, Wraps outer inner us ∧ ∀ args rest, Completes [] inner args →
      us.tail.tail = args ++ rest → rest.length ≤ 1 → Wraps name ts args := by
  refine ⟨⟨.colon, 0, 0⟩ :: ⟨.function name, 0, 0⟩ :: ts, ?_, ?_⟩
  · have hinner : openAfter [] (⟨.colon, 0, 0⟩ :: ⟨.function name, 0, 0⟩ :: ts) =
        some (stack ++ [.round]) := openAfter_above hts [.round]
    exact Wraps.of_kinds [.rightParen] hinner hkinds (fun k hk => List.mem_singleton.mp hk) hus
  · intro args rest hargs hrest hlength
    have hall : args.map kind ++ rest.map kind =
        (.colon :: .function name :: (ts.map kind ++ [.rightParen])) ++ [.rightParen] := by
      rw [← List.map_append, ← hrest, List.map_tail, List.map_tail, hkinds]
      simp
    have hlast : ∀ t ∈ args.getLast?, t.isWhitespace = false := by
      cases rest with
      | nil =>
          rw [List.map_nil, List.append_nil] at hall
          exact last_of_kinds hall
      | cons close rest =>
          obtain rfl : rest = [] := List.eq_nil_of_length_eq_zero (by
            rw [List.length_cons] at hlength
            omega)
          have hkinds : args.map kind =
              (.colon :: .function name :: ts.map kind) ++ [.rightParen] :=
            List.append_inj_left' hall rfl
          exact last_of_kinds hkinds
    cases hargs with
    | @cons _ _ _ u _ _ hcolon hnest hargs =>
        cases hnest
        cases hargs with
        | @cons _ _ _ v _ r hfunction hnest hr =>
            cases hnest
            obtain ⟨k, i, j⟩ := u
            obtain ⟨k', i', j'⟩ := v
            obtain rfl : k = .colon := hcolon.symm
            obtain rfl : k' = .function name := hfunction.symm
            exact ⟨⟨stack, hts⟩, ⟨i, j, i', j', r, rfl, hr⟩, hlast⟩

end Syntax

end Selectors

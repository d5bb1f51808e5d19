import Selectors.Proofs.Compiled.Forgiving
import Selectors.Proofs.Compiled.Steps
import Selectors.Proofs.Syntax.Acceptance

/-!
# Which failure a text ends in

A text is refused for its tokens first, then for the grammar of its members, and then for what its
members mean, from left to right.  The first two blame the whole text.  The third is the failure of
the first member that does not compile by itself, and what it blames for its grammar or its place is
quoted from the source.

* `Compile.Fails` is a judgement about all failures of a step, and `Compile.fails_member` the result
  for members.
* `mapM_eq_error_iff` finds the first failure of a row.
* `FailsInOrder` says what a text fails with.
-/

namespace Selectors

open SelectorError (RaisedIn)

namespace Compile

variable {α β ι : Type}

/-- Every failure of the step has the property. -/
def Fails (E : SelectorError → Prop) (x : Compile α) : Prop :=
  Meets (fun _ => True) x (fun _ _ => True) fun e _ => E e

/-- The property of a failure. -/
theorem Fails.of_run {E : SelectorError → Prop} {x : Compile α} (h : Fails E x) {a b : Arena}
    {e : SelectorError} (hrun : runFrom x a = (.error e, b)) : E e :=
  h.of_error trivial hrun

/-- Making tests is no matter where only failures are asked for. -/
theorem makes_any : Makes fun _ => True where
  ofType _ _ := trivial
  ofId _ := trivial
  ofClass _ := trivial
  ofAttribute _ := trivial
  ofNesting := trivial
  ofPseudo _ _ _ _ _ := Returns.any _

/-- **A member** is read from the source, and so are all texts in it. -/
theorem fails_member {source : List Char} {ctx : CompileContext} (level : Nat)
    (hctx : ctx.source = source) (relative : Bool) (tokens : List Token) :
    Fails (RaisedIn source) (member (list level) ctx relative tokens) := by
  have hmember : Behaves source (fun _ => True) (member (list level) ctx relative tokens) _ :=
    (Behaves.read hctx relative tokens).bind fun node hnode =>
      Behaves.complex (behavesIn_list makes_any level) hctx makes_any relative hnode
  exact Meets.weaken hmember (fun _ _ _ _ _ => trivial) (fun _ _ _ => trivial)
    fun _ _ he => he.1

/-! ### Rows of members -/

/-- What is made of a result fails exactly if the step does. -/
theorem result_map_eq_error_iff {x : Compile α} {f : α → β} {e : SelectorError} {a : Arena} :
    (runFrom (do return f (← x)) a).1 = .error e ↔ (runFrom x a).1 = .error e := by
  rcases hrun : runFrom x a with ⟨e' | v, b⟩
  · rw [runFrom_bind_error hrun]
    simp
  · rw [runFrom_bind_ok hrun]
    simp

/-- Storing a list never fails. -/
theorem result_pushList_eq_error_iff {x : Compile (List ComplexId)} {e : SelectorError}
    {a : Arena} :
    (runFrom (x >>= pushList) a).1 = .error e ↔ (runFrom x a).1 = .error e := by
  rcases hrun : runFrom x a with ⟨e' | cs, b⟩
  · rw [runFrom_bind_error hrun]
    simp
  · rw [runFrom_bind_ok hrun]
    constructor
    · intro he
      cases he
    · rintro ⟨⟩

/-- What a member of a text comes to by itself, from an arena without parts. -/
def alone (source : List Char) (m : List Token) : Except SelectorError (ComplexTree ListTree) :=
  outcome Part.complex (member (list m.length) { source } false m) {}

variable {source : List Char} {level : Nat} {ms : List (List Token)} {e : SelectorError}

/-- A row of members fails as it does where each is compiled by itself. -/
theorem result_mapM_member_eq_error_iff {a : Arena} (hlevel : ∀ m ∈ ms, m.length ≤ level)
    (ha : a.Closed) :
    (runFrom (ms.mapM (member (list level) { source } false)) a).1 = .error e ↔
      ms.mapM (alone source) = .error e := by
  induction ms generalizing a with
  | nil =>
      constructor
      · rintro ⟨⟩
      · rintro ⟨⟩
  | cons m ms ih =>
      obtain ⟨hm, hmore⟩ := List.forall_mem_cons.mp hlevel
      have halone : outcome Part.complex (member (list level) { source } false m) a =
          alone source m := member_outcome hm false ha
      have hclosed : (runFrom (member (list level) { source } false m) a).2.Closed :=
        (member_twin (list_uniform_self level m.length) false (Nat.le_refl _) ha ha).closed
      unfold outcome at halone
      rw [List.mapM_cons, List.mapM_cons, ← halone]
      rcases hrun : runFrom (member (list level) { source } false m) a with ⟨e' | v, b⟩
      · rw [runFrom_bind_error hrun]
        simp [bind, Except.bind]
      · rw [hrun] at hclosed
        rw [runFrom_bind_ok hrun]
        exact result_map_eq_error_iff.trans ((ih hmore hclosed).trans map_eq_error_iff.symm)

/-- Members that can be read are compiled as what is read of them. -/
theorem mapM_member {nested : ListCompiler} {ctx : CompileContext} {nodes : List ComplexNode}
    (hread : ms.mapM (ComplexNode.ofTokens ctx.source false) = .ok nodes) :
    ms.mapM (member nested ctx false) = nodes.mapM (complex nested ctx false) := by
  have hrow := mapM_eq_ok_iff.mp hread
  clear hread
  induction hrow with
  | nil => rfl
  | @cons m node ms nodes hnode _ ih =>
      have hm : member nested ctx false m = complex nested ctx false node := by
        unfold member
        rw [hnode]
        rfl
      rw [List.mapM_cons, List.mapM_cons, hm, ih]

end Compile

/-! ### Texts -/

section Texts

variable {text : String} {m : List Token} {err : SelectorError}

/-- In a text of which the tokens can stand in a selector, the members that are read are those that
the grammar derives. -/
theorem ComplexNode.exists_ofTokens_iff {tokens : List Token}
    (hfits : Token.balanced [] tokens = true) (hm : m ∈ Token.splitList tokens)
    (source : List Char) :
    (∃ node, ofTokens source false m = .ok node) ↔ Grammar.complex false (Token.trim m) [] := by
  obtain ⟨stack, hopen⟩ := Token.exists_openAfter hfits
  obtain ⟨-, -, stack', -, hopen', -⟩ := Token.mem_splitList hopen hm
  have hfits' : Token.balanced [] m = true := by
    rw [Token.balanced_eq, hopen']
    rfl
  constructor
  · rintro ⟨node, hnode⟩
    exact complex_of_read (Token.bracketsFit_trim hfits') (ofTokens_eq_ok.mp hnode)
  · intro hcomplex
    obtain ⟨node, hnode⟩ := read_of_complex source hcomplex (Syntax.unspaced_trim m)
    exact ⟨node, ofTokens_eq_ok.mpr hnode⟩

/-- The whole text is blamed for its tokens. -/
theorem compile_of_refused (h : Token.balanced [] (TokenStream.read text).tokens = false) :
    compile text = .error (.invalidToken text) := by
  have hstream : TokenStream.ofText text = .error (.invalidToken text) := by
    unfold TokenStream.ofText
    simp [h]
  unfold compile
  rw [hstream]
  rfl

/-- The whole text is blamed for the grammar of a member. -/
theorem compile_of_ungrammatical (h : Token.balanced [] (TokenStream.read text).tokens = true)
    (hm : m ∈ Token.splitList (TokenStream.read text).tokens)
    (hgrammar : ¬Grammar.complex false (Token.trim m) []) :
    compile text = .error (.invalidSelector text) := by
  have hstream := TokenStream.ofText_eq_ok_iff.mpr ⟨h, rfl⟩
  obtain ⟨e, he⟩ : ∃ e, ComplexNode.listOfTokens (TokenStream.read text).source false
      (TokenStream.read text).tokens = .error e := by
    refine exists_mapM_eq_error_iff.mpr ⟨m, hm, ?_⟩
    cases hread : ComplexNode.ofTokens (TokenStream.read text).source false m with
    | error e => exact ⟨e, rfl⟩
    | ok node => exact absurd ((ComplexNode.exists_ofTokens_iff h hm _).mp ⟨node, hread⟩) hgrammar
  unfold compile
  rw [hstream]
  simp only [bind, Except.bind, he]
  rfl

/-- Where the list can be read, the text fails as storing its members does. -/
theorem compile_eq_error_iff_of_read {stream : TokenStream} {nodes : List ComplexNode}
    (hstream : TokenStream.ofText text = .ok stream)
    (hnodes : ComplexNode.listOfTokens stream.source false stream.tokens = .ok nodes) :
    compile text = .error err ↔
      (runFrom (nodes.mapM (Compile.complex (Compile.list stream.tokens.length)
        { source := stream.source } false)) {}).1 = .error err := by
  rw [← Compile.result_pushList_eq_error_iff]
  generalize hmembers : nodes.mapM (Compile.complex (Compile.list stream.tokens.length)
    { source := stream.source } false) = members
  unfold compile
  rw [hstream]
  simp only [bind, Except.bind, hnodes, hmembers]
  split
  · rename_i root arena hends
    rw [show runFrom (ExceptT.bind members Compile.pushList) {} = _ from hends]
    simp [Pure.pure, Except.pure]
  · rename_i e arena hends
    rw [show runFrom (ExceptT.bind members Compile.pushList) {} = _ from hends]
    simp [throw, throwThe, MonadExceptOf.throw]

/-- Where every member can be read, the text fails as its members do. -/
theorem compile_eq_error_iff_of_grammatical
    (h : Token.balanced [] (TokenStream.read text).tokens = true)
    (hgrammar : ∀ m ∈ Token.splitList (TokenStream.read text).tokens,
      Grammar.complex false (Token.trim m) []) :
    compile text = .error err ↔ (Token.splitList (TokenStream.read text).tokens).mapM
      (Compile.alone (TokenStream.read text).source) = .error err := by
  have hstream := TokenStream.ofText_eq_ok_iff.mpr ⟨h, rfl⟩
  generalize TokenStream.read text = stream at *
  obtain ⟨nodes, hnodes⟩ : ∃ nodes,
      ComplexNode.listOfTokens stream.source false stream.tokens = .ok nodes := by
    cases hread : ComplexNode.listOfTokens stream.source false stream.tokens with
    | ok nodes => exact ⟨nodes, rfl⟩
    | error e =>
        obtain ⟨m, hm, e', he'⟩ := exists_mapM_eq_error_iff.mp ⟨e, hread⟩
        obtain ⟨node, hnode⟩ := (ComplexNode.exists_ofTokens_iff h hm _).mpr (hgrammar m hm)
        rw [hnode] at he'
        cases he'
  have hmembers : (Token.splitList stream.tokens).mapM (Compile.member
      (Compile.list stream.tokens.length) { source := stream.source } false) = _ :=
    Compile.mapM_member hnodes
  rw [compile_eq_error_iff_of_read hstream hnodes, ← hmembers]
  exact Compile.result_mapM_member_eq_error_iff (fun m hm => Token.length_le_of_mem_splitList hm)
    Arena.closed_empty

/-- **What a text fails with**, in this order: all of it for its tokens, all of it for the grammar
of a member, or what the first member fails with that does not compile. -/
structure FailsInOrder (text : String) (stream : TokenStream) (err : SelectorError) : Prop where
  /-- The text is blamed for its tokens exactly if the check refuses them. -/
  token : err = .invalidToken text ↔ Token.balanced [] stream.tokens = false
  /-- No other text is blamed for its tokens. -/
  whole : ∀ s, err = .invalidToken s → s = text
  /-- Some member breaks the grammar, whatever the others mean. -/
  grammar : Token.balanced [] stream.tokens = true →
    (∃ m ∈ Token.splitList stream.tokens, ¬Grammar.complex false (Token.trim m) []) →
      err = .invalidSelector text
  /-- All members can be read: the first that does not compile by itself gives the failure. -/
  leftmost : Token.balanced [] stream.tokens = true →
    (∀ m ∈ Token.splitList stream.tokens, Grammar.complex false (Token.trim m) []) →
      ∃ before m after, Token.splitList stream.tokens = before ++ m :: after ∧
        (∀ m' ∈ before, ∃ c, Compile.alone stream.source m' = .ok c) ∧
        Compile.alone stream.source m = .error err ∧ err.RaisedIn stream.source
  /-- Whatever a member fails with anywhere in the text is raised in the source, also where the
  failure is forgiven. -/
  inside : ∀ level ctx relative m, ctx.source = stream.source →
    Compile.Fails (RaisedIn stream.source) (Compile.member (Compile.list level) ctx relative m)

/-- What a member fails with by itself is raised in the source. -/
theorem Compile.raisedIn_of_alone {source : List Char} (hm : alone source m = .error err) :
    err.RaisedIn source := by
  unfold alone outcome at hm
  rcases hrun : runFrom (member (list m.length) { source } false m) {} with ⟨e | v, b⟩
  · rw [hrun] at hm
    cases hm
    exact (fails_member m.length rfl false m).of_run hrun
  · rw [hrun] at hm
    cases hm

/-- Where the tokens can stand in a selector, tokens are not blamed. -/
theorem ne_invalidToken_of_compile (hfails : compile text = .error err)
    (h : Token.balanced [] (TokenStream.read text).tokens = true) (s : String) :
    err ≠ .invalidToken s := by
  rintro rfl
  by_cases hgrammar : ∀ m ∈ Token.splitList (TokenStream.read text).tokens,
      Grammar.complex false (Token.trim m) []
  · rw [compile_eq_error_iff_of_grammatical h hgrammar] at hfails
    obtain ⟨-, m, -, -, -, hm⟩ := mapM_eq_error_iff.mp hfails
    have hraised := Compile.raisedIn_of_alone hm
    cases hraised
  · push Not at hgrammar
    obtain ⟨m, hm, hno⟩ := hgrammar
    rw [compile_of_ungrammatical h hm hno] at hfails
    cases hfails

/-- **Every failure is in order.** -/
theorem failsInOrder_of_compile (hfails : compile text = .error err) :
    FailsInOrder text (TokenStream.read text) err where
  token := by
    constructor
    · intro htoken
      by_contra h
      exact ne_invalidToken_of_compile hfails (by simpa using h) text htoken
    · intro h
      rw [compile_of_refused h] at hfails
      cases hfails
      rfl
  whole s htoken := by
    cases h : Token.balanced [] (TokenStream.read text).tokens with
    | true => exact absurd htoken (ne_invalidToken_of_compile hfails h s)
    | false =>
        rw [compile_of_refused h, htoken] at hfails
        cases hfails
        rfl
  grammar h := by
    rintro ⟨m, hm, hgrammar⟩
    rw [compile_of_ungrammatical h hm hgrammar] at hfails
    cases hfails
    rfl
  leftmost h hgrammar := by
    rw [compile_eq_error_iff_of_grammatical h hgrammar] at hfails
    obtain ⟨before, m, after, hsplit, hbefore, hm⟩ := mapM_eq_error_iff.mp hfails
    exact ⟨before, m, after, hsplit, hbefore, hm, Compile.raisedIn_of_alone hm⟩
  inside level ctx relative m hctx := Compile.fails_member level hctx relative m

/-- A parenthesis that nothing opened comes before a name that is not known, and so does a member
that begins with a combinator.  Without these the first member that fails is blamed, and what is
quoted stands in the source. -/
theorem failsInOrder_of_compile_unknownName :
    let text := "a, :not(::before), :zzz"
    let stream := TokenStream.read text
    FailsInOrder ":zzz, a)" (TokenStream.read ":zzz, a)") (.invalidToken ":zzz, a)") ∧
      FailsInOrder ":zzz, > a" (TokenStream.read ":zzz, > a") (.invalidSelector ":zzz, > a") ∧
      compile text = .error (.invalidConstruct "::before") ∧
      Quoted stream.source "::before" ∧
      ∃ before m after, Token.splitList stream.tokens = before ++ m :: after ∧
        (∀ m' ∈ before, ∃ c, Compile.alone stream.source m' = .ok c) ∧
        Compile.alone stream.source m = .error (.invalidConstruct "::before") := by
  intro text stream
  have hfails : compile text = .error (.invalidConstruct "::before") := by
    decide +kernel
  have hfits : Token.balanced [] stream.tokens = true := by
    decide +kernel
  have hread : ∀ m ∈ Token.splitList stream.tokens,
      (ComplexNode.ofTokens stream.source false m).toOption.isSome = true := by
    decide +kernel
  have hgrammar : ∀ m ∈ Token.splitList stream.tokens,
      Grammar.complex false (Token.trim m) [] := by
    intro m hm
    refine (ComplexNode.exists_ofTokens_iff hfits hm stream.source).mp ?_
    have hsome := hread m hm
    cases hnode : ComplexNode.ofTokens stream.source false m with
    | error e => simp [hnode, Except.toOption] at hsome
    | ok node => exact ⟨node, rfl⟩
  obtain ⟨before, m, after, hsplit, hbefore, hm, hraised⟩ :=
    (failsInOrder_of_compile hfails).leftmost hfits hgrammar
  refine ⟨failsInOrder_of_compile (by decide +kernel), failsInOrder_of_compile (by decide +kernel),
    hfails, ?_, before, m, after, hsplit, hbefore, hm⟩
  cases hraised with
  | invalidConstruct h => exact h

end Texts

end Selectors

import Selectors.Proofs.Compiled.Alone
import Selectors.Proofs.Compiled.Completing
import Selectors.Proofs.Syntax.Wrapping
import Selectors.Proofs.Token.Wrapping

/-!
# Compiling a text in a function

In `:is()` and its like a text is compiled to the same parts as alone, and a list with one
pseudo-class is stored behind them.  The list inside is read as one that completes the text, which
compiles alike.  That its members are forgiven makes no difference, because none of them fails.

* `Arena.HoldsAlone` says that a list is one pseudo-class and nothing else.
* `Compile.forgiving_of_strict` compares the two ways of reading a list.
* `Wrapper.exists_compile` is the result for the three wrappers.
-/

namespace Selectors

open Token

namespace Arena

variable {a a' : Arena} {p : PseudoClass} {l : ListId}

/-- The list has one member, which is a pseudo-class and nothing else. -/
structure HoldsAlone (a : Arena) (p : PseudoClass) (l : ListId) : Prop where
  stored : l.index < a.lists.size
  member : ∃ c d, (a.list l).complexes = [c] ∧
    c.index < a.complexes.size ∧ (a.complex c).first = d ∧ (a.complex c).joined = [] ∧
    d.index < a.compounds.size ∧ (a.compound d).pseudoElement = none ∧
      (a.compound d).inOrder = [.pseudo p]

/-- A pseudo-class alone in a list is a test alone in a list. -/
theorem holdsAlone_iff : a.HoldsAlone p l ↔ a.HoldsTest (.pseudo p) l :=
  ⟨fun h => ⟨h.stored, h.member⟩, fun h => ⟨h.stored, h.member⟩⟩

/-- A pseudo-class alone in a list stays so. -/
theorem HoldsAlone.of_grows (h : a.HoldsAlone p l) (hgrows : a.Grows a') : a'.HoldsAlone p l :=
  holdsAlone_iff.mpr ((holdsAlone_iff.mp h).of_grows hgrows)

end Arena

namespace Compile

variable {nested : ListCompiler} {ctx : CompileContext} {a b : Arena} {l : ListId}
  {p : PseudoClass} {ts us : List Token} {text : String}

/-! ### One pseudo-class -/

/-- **A pseudo-class alone** is stored behind what it asks for. -/
theorem holdsAlone_of_pseudoClass {name : String} {args : Option Arguments}
    (hrun : runFrom (pseudoClass nested ctx name args text) a = (.ok p, b)) (whole : String) :
    ∃ l' b', runFrom ([⟨none, [.pseudoClass name args text], [], whole⟩].mapM
        (complex nested ctx false) >>= pushList) a = (.ok l', b') ∧
      b.Grows b' ∧ b'.HoldsAlone p l' := by
  have hcomponent : runFrom (component nested ctx whole {} (.pseudoClass name args text)) a =
      (.ok { simples := [.pseudo p] }, b) := by
    unfold component
    dsimp only
    rw [if_neg (by decide)]
    exact runFrom_bind_ok hrun
  obtain ⟨l', b', hlist, hgrows, htest⟩ := holdsTest_of_component hcomponent
  exact ⟨l', b', hlist, hgrows, Arena.holdsAlone_iff.mpr htest⟩

/-! ### Members that are forgiven -/

/-- A member that does not fail is kept. -/
theorem forgivenMember_of_ok {m : List Token} {node : ComplexNode} {id : ComplexId}
    (hread : ComplexNode.ofTokens ctx.source false m = .ok node)
    (hrun : runFrom (complex nested ctx false node) a = (.ok id, b)) :
    runFrom (forgivenMember nested ctx m) a = (.ok (some id), b) := by
  have hnonempty : ¬(trim m).isEmpty = true := by
    intro hempty
    rw [ComplexNode.ofTokens, List.isEmpty_iff.mp hempty] at hread
    cases hread
  have hlift : runFrom (forgivenMember.liftExcept (ComplexNode.ofTokens ctx.source false m)) a =
      (.ok node, a) := by
    rw [hread]
    rfl
  have hmember : runFrom (do
      let node ← forgivenMember.liftExcept (ComplexNode.ofTokens ctx.source false m)
      some <$> complex nested ctx false node) a = (.ok (some id), b) := by
    rw [runFrom_bind_ok hlift, map_eq_pure_bind, runFrom_bind_ok hrun]
    rfl
  unfold forgivenMember
  rw [if_neg hnonempty, runFrom_tryCatch, hmember]

/-- Members that all compile are compiled forgivingly to the same. -/
theorem filterMapM_forgivenMember {ms : List (List Token)} {nodes : List ComplexNode}
    {ids : List ComplexId} (hread : ms.mapM (ComplexNode.ofTokens ctx.source false) = .ok nodes)
    (hrun : runFrom (nodes.mapM (complex nested ctx false)) a = (.ok ids, b)) :
    runFrom (ms.filterMapM (forgivenMember nested ctx)) a = (.ok ids, b) := by
  have hrow := mapM_eq_ok_iff.mp hread
  clear hread
  induction hrow generalizing ids a with
  | nil => exact hrun
  | cons hnode _ ih =>
      rw [List.mapM_cons] at hrun
      obtain ⟨id, a₁, hid, hrun⟩ := exists_of_runFrom_bind hrun
      obtain ⟨rest, a₂, hrest, hrun⟩ := exists_of_runFrom_bind hrun
      cases hrun
      rw [List.filterMapM_cons, runFrom_bind_ok (forgivenMember_of_ok hnode hid)]
      exact runFrom_bind_ok (ih hrest)

/-- A list that is read strictly, in terms of what the reader makes of it. -/
theorem list_succ_strict (level : Nat) :
    list (level + 1) ctx .strict ts text =
      match ComplexNode.listOfTokens ctx.source false ts with
      | .error _ => throw (SelectorError.invalidSelector text)
      | .ok nodes => nodes.mapM (complex (list level) ctx false) >>= pushList := rfl

/-- **A list that is read without failure** is the same if its failures are forgiven. -/
theorem forgiving_of_strict {level : Nat}
    (hrun : runFrom (list level ctx .strict ts text) a = (.ok l, b)) :
    runFrom (list level ctx .forgiving ts text) a = (.ok l, b) := by
  cases level with
  | zero => cases hrun
  | succ level =>
      rw [list_succ_strict, ComplexNode.listOfTokens] at hrun
      change runFrom
        ((splitList ts).filterMapM (forgivenMember (list level) ctx) >>= pushList) a = _
      cases hread : (splitList ts).mapM (ComplexNode.ofTokens ctx.source false) with
      | error e =>
          rw [hread] at hrun
          cases hrun
      | ok nodes =>
          rw [hread] at hrun
          obtain ⟨ids, a₁, hids, hpush⟩ := exists_of_runFrom_bind hrun
          rw [runFrom_bind_ok (filterMapM_forgivenMember hread hids)]
          exact hpush

/-! ### Runs in functions -/

/-- **What compiles by itself compiles to the same parts in an argument** that completes it. -/
theorem list_of_completes {source : List Char} {nodes : List ComplexNode} {level : Nat}
    (hread : ComplexNode.listOfTokens source false ts = .ok nodes)
    (hplain : ∀ node ∈ nodes, node.hasPseudoElement = false)
    (hrun : runFrom (nodes.mapM (complex (list ts.length) { source } false) >>= pushList) a =
      (.ok l, b))
    (h : Completes [] ts us) (hlevel : us.length < level) (hhas : ctx.inHas = false)
    (text : String) :
    ∃ b', b.wordless = b'.wordless ∧
      runFrom (list level ctx .strict us text) a = (.ok l, b') := by
  obtain ⟨level, rfl⟩ := Nat.exists_eq_succ_of_ne_zero (Nat.ne_zero_of_lt hlevel)
  have hmembers := h.members (Nat.le_refl _) (Nat.le_of_lt_succ hlevel)
  rcases ComplexNode.mapM_ofTokens_completed source ctx.source false hmembers with
    ⟨e, e', hts, -⟩ | ⟨nodes', nodes'', hts, hus, hnodes⟩
  · rw [ComplexNode.listOfTokens, hts] at hread
    cases hread
  · rw [ComplexNode.listOfTokens, hts] at hread
    cases hread
    have hsame : ({ source } : CompileContext).inHas = ctx.inHas := hhas.symm
    have hnested : ∀ node ∈ nodes, node.hasPseudoElement = true →
        ({ source } : CompileContext).nested = true ∧ ctx.nested = true :=
      fun node hnode hpseudo => by simp [hplain node hnode] at hpseudo
    have halike := nodes_alike (list_alike ts.length level) hsame false hnodes hnested a a rfl
    rw [list_succ_strict, ComplexNode.listOfTokens, hus]
    dsimp only
    rw [hrun] at halike
    generalize runFrom (nodes''.mapM (complex (list level) ctx false) >>= pushList) a = ends
      at halike ⊢
    cases halike with
    | ok hl hb => exact ⟨_, hb, hl ▸ rfl⟩

/-- A pseudo-class with a strict list compiles with the list. -/
theorem pseudoClass_of_strict {level : Nat} {name : String} {op : Logical} {args : Arguments}
    (hname : PseudoClassName.ofText? name = some (.logical op)) (hop : op ≠ .has)
    (hrun : runFrom (list level { ctx with nested := true } .strict args.tokens text) a =
      (.ok l, b)) :
    runFrom (pseudoClass (list level) ctx name (some args) text) a =
      (.ok (.logical op l), b) := by
  have hallows : PseudoClassName.allows (.logical op) (some args).isSome = true := by
    cases op <;> rfl
  unfold pseudoClass
  rw [hname]
  dsimp only
  rw [if_pos hallows]
  cases op with
  | is => exact runFrom_bind_ok (forgiving_of_strict hrun)
  | whereAny => exact runFrom_bind_ok (forgiving_of_strict hrun)
  | not => exact runFrom_bind_ok hrun
  | has => exact absurd rfl hop

/-- Arguments that are read strictly are stored as a list with a property, whatever is blamed for
a failure. -/
def Stores (level : Nat) (ctx : CompileContext) (args : List Token) (P : ListId → Arena → Prop) :
    Prop :=
  ∀ text, ∃ l b, P l b ∧
    runFrom (list level { ctx with nested := true } .strict args text) {} = (.ok l, b)

/-- **A run in a function** is stored as one pseudo-class behind what the arguments store. -/
theorem exists_of_wraps {name : String} {op : Logical} {P : ListId → Arena → Prop} (level : Nat)
    (ctx : CompileContext) (hwraps : Syntax.Wraps name ts us)
    (hname : PseudoClassName.ofText? name = some (.logical op)) (hop : op ≠ .has)
    (hargs : ∀ args rest, Completes [] ts args → us.tail.tail = args ++ rest → rest.length ≤ 1 →
      Stores level ctx args P) :
    ∃ nodes, ComplexNode.listOfTokens ctx.source false us = .ok nodes ∧ ∃ l b l' b', P l b ∧
      b.Grows b' ∧ b'.HoldsAlone (.logical op l) l' ∧
        runFrom (nodes.mapM (complex (list level) ctx false) >>= pushList) {} = (.ok l', b') := by
  obtain ⟨args, text, whole, rest, hcompletes, htail, hrest, hread⟩ :=
    hwraps.listOfTokens_eq ctx.source
  obtain ⟨l, b, hP, hrun⟩ := hargs args.tokens rest hcompletes htail hrest text
  obtain ⟨l', b', hrun', hgrows, halone⟩ :=
    holdsAlone_of_pseudoClass (pseudoClass_of_strict hname hop hrun) whole
  exact ⟨_, hread, l, b, l', b', hP, hgrows, halone, hrun'⟩

end Compile

/-- Whether a pseudo-element stands in the selectors of a text, outside of arguments. -/
def holdsPseudoElement (text : String) : Bool :=
  let stream := TokenStream.read text
  match ComplexNode.listOfTokens stream.source false stream.tokens with
  | .error _ => false
  | .ok nodes => nodes.any ComplexNode.hasPseudoElement

variable {text wrapped name : String} {s : CompiledSelector}

/-- A text that compiles has brackets that fit. -/
theorem balanced_of_compile (hs : compile text = .ok s) :
    balanced [] (TokenStream.read text).tokens = true := by
  obtain ⟨stream, -, hstream, -⟩ := compile_eq_ok_iff.mp hs
  exact (TokenStream.ofText_eq_ok_iff.mp hstream).1

/-- What compiles by itself compiles in an argument. -/
theorem stores_argument (hs : compile text = .ok s) (hplain : holdsPseudoElement text = false)
    {args : List Token} {level : Nat} {ctx : CompileContext}
    (hargs : Completes [] (TokenStream.read text).tokens args) (hlevel : args.length < level)
    (hhas : ctx.inHas = false) :
    Compile.Stores level ctx args fun l b => l = s.root ∧ s.arena.wordless = b.wordless := by
  intro blamed
  obtain ⟨stream, nodes, hstream, hread, hrun, -⟩ := compile_eq_ok_iff.mp hs
  obtain ⟨-, rfl⟩ := TokenStream.ofText_eq_ok_iff.mp hstream
  rw [holdsPseudoElement, hread] at hplain
  have hnodes : ∀ node ∈ nodes, node.hasPseudoElement = false := fun node hnode =>
    Bool.eq_false_iff.mpr (List.any_eq_false.mp hplain node hnode)
  have hinner : { ctx with nested := true }.inHas = false := hhas
  obtain ⟨b, hb, hrun'⟩ :=
    Compile.list_of_completes hread hnodes hrun hargs hlevel hinner blamed
  exact ⟨s.root, b, ⟨rfl, hb⟩, hrun'⟩

/-- What compiles by itself is stored in a function, and the function alone behind it. -/
theorem exists_of_wraps_text {op : Logical} {us : List Token} (hs : compile text = .ok s)
    (hplain : holdsPseudoElement text = false) (level : Nat) (ctx : CompileContext)
    (hwraps : Syntax.Wraps name (TokenStream.read text).tokens us) (hlevel : us.length ≤ level + 1)
    (hhas : ctx.inHas = false) (hname : PseudoClassName.ofText? name = some (.logical op))
    (hop : op ≠ .has) :
    ∃ nodes, ComplexNode.listOfTokens ctx.source false us = .ok nodes ∧ ∃ l a,
      s.arena.wordless.Grows a.wordless ∧ a.HoldsAlone (.logical op s.root) l ∧
        runFrom (nodes.mapM (Compile.complex (Compile.list level) ctx false) >>= Compile.pushList)
          {} = (.ok l, a) := by
  have hargs : ∀ args rest, Completes [] (TokenStream.read text).tokens args →
      us.tail.tail = args ++ rest → rest.length ≤ 1 →
        Compile.Stores level ctx args fun l b => l = s.root ∧ s.arena.wordless = b.wordless := by
    intro args rest hcompletes htail _
    have hlength := hwraps.length_lt htail
    exact stores_argument hs hplain hcompletes (by omega) hhas
  obtain ⟨nodes, hread, _, b, l, a, ⟨rfl, hb⟩, hgrows, halone, hrun⟩ :=
    Compile.exists_of_wraps level ctx hwraps hname hop hargs
  exact ⟨nodes, hread, l, a, hb ▸ hgrows.wordless, halone, hrun⟩

/-- **A text in one function.** -/
theorem exists_compile_function {op : Logical} (hs : compile text = .ok s)
    (hplain : holdsPseudoElement text = false)
    (hname : PseudoClassName.ofText? name = some (.logical op)) (hop : op ≠ .has)
    (hkinds : TokenStream.kindsOf wrapped =
      .colon :: .function name :: (TokenStream.kindsOf text ++ [.rightParen]))
    (hbalanced : balanced [] (TokenStream.read wrapped).tokens = true) :
    ∃ s', compile wrapped = .ok s' ∧ s.arena.wordless.Grows s'.arena.wordless ∧
      s'.arena.HoldsAlone (.logical op s.root) s'.root := by
  obtain ⟨stack, hts⟩ := exists_openAfter (balanced_of_compile hs)
  obtain ⟨stack', hus⟩ := exists_openAfter hbalanced
  have hwraps := Syntax.Wraps.of_kinds [] hts hkinds (fun k hk => absurd hk List.not_mem_nil) hus
  obtain ⟨nodes, hread, l, a, hgrows, halone, hrun⟩ := exists_of_wraps_text hs hplain
    (TokenStream.read wrapped).tokens.length { source := (TokenStream.read wrapped).source }
    hwraps (Nat.le_succ _) rfl hname hop
  have hstream := TokenStream.ofText_eq_ok_iff.mpr ⟨hbalanced, rfl⟩
  exact ⟨⟨wrapped, a, l⟩, compile_eq_ok_iff.mpr ⟨_, nodes, hstream, hread, hrun, rfl⟩, hgrows,
    halone⟩

/-- **A text in two functions** that deny it. -/
theorem exists_compile_notNot (hs : compile text = .ok s)
    (hplain : holdsPseudoElement text = false)
    (hkinds : TokenStream.kindsOf wrapped = .colon :: .function "not" :: .colon ::
      .function "not" :: (TokenStream.kindsOf text ++ [.rightParen, .rightParen]))
    (hbalanced : balanced [] (TokenStream.read wrapped).tokens = true) :
    ∃ s', compile wrapped = .ok s' ∧ s.arena.wordless.Grows s'.arena.wordless ∧
      ∃ l, s'.arena.HoldsAlone (.logical .not s.root) l ∧
        s'.arena.HoldsAlone (.logical .not l) s'.root := by
  obtain ⟨stack, hts⟩ := exists_openAfter (balanced_of_compile hs)
  obtain ⟨stack', hus⟩ := exists_openAfter hbalanced
  have hname : PseudoClassName.ofText? "not" = some (.logical .not) := by
    decide +kernel
  let us := (TokenStream.read wrapped).tokens
  let ctx : CompileContext := { source := (TokenStream.read wrapped).source }
  obtain ⟨inner, houter, hinner⟩ := Syntax.Wraps.of_kinds_twice hts hkinds hus
  have hargs : ∀ args rest, Completes [] inner args → us.tail.tail = args ++ rest →
      rest.length ≤ 1 → Compile.Stores us.length ctx args fun l b =>
        s.arena.wordless.Grows b.wordless ∧ b.HoldsAlone (.logical .not s.root) l := by
    intro args rest hcompletes htail hrest blamed
    have hlength := houter.length_lt htail
    obtain ⟨level, hlevel⟩ := Nat.exists_eq_succ_of_ne_zero (Nat.ne_zero_of_lt hlength)
    obtain ⟨nodes, hread, l, b, hgrows, halone, hrun⟩ := exists_of_wraps_text hs hplain level
      { ctx with nested := true } (hinner args rest hcompletes htail hrest) (by omega) rfl hname
      (by decide)
    refine ⟨l, b, ⟨hgrows, halone⟩, ?_⟩
    rw [hlevel, Compile.list_succ_strict, hread]
    exact hrun
  obtain ⟨nodes, hread, l, b, root, a, ⟨hgrown, hl⟩, hgrows, halone, hrun⟩ :=
    Compile.exists_of_wraps us.length ctx houter hname (by decide) hargs
  have hstream := TokenStream.ofText_eq_ok_iff.mpr ⟨hbalanced, rfl⟩
  exact ⟨⟨wrapped, a, root⟩, compile_eq_ok_iff.mpr ⟨_, nodes, hstream, hread, hrun, rfl⟩,
    hgrown.trans hgrows.wordless, l, hl.of_grows hgrows, halone⟩

namespace Wrapper

/-- The root of an arena is what the wrapper makes of a list. -/
def Holds (a : Arena) (l root : ListId) : Wrapper → Prop
  | is => a.HoldsAlone (.logical .is l) root
  | whereAny => a.HoldsAlone (.logical .whereAny l) root
  | notNot => ∃ l', a.HoldsAlone (.logical .not l) l' ∧ a.HoldsAlone (.logical .not l') root

/-- **A closed text compiles in a wrapper** if the check of its brackets accepts the whole. -/
theorem exists_compile (w : Wrapper) (hs : compile text = .ok s)
    (hplain : holdsPseudoElement text = false) (hclosed : TokenStream.Closed text)
    (hbalanced : balanced [] (TokenStream.read (w.wrap text)).tokens = true) :
    ∃ s', compile (w.wrap text) = .ok s' ∧ s.arena.wordless.Grows s'.arena.wordless ∧
      w.Holds s'.arena s.root s'.root := by
  obtain ⟨hone, htwo⟩ := hclosed.kindsOf_append
  cases w with
  | is =>
      have hkinds : TokenStream.kindsOf (is.wrap text) =
          .colon :: .function "is" :: (TokenStream.kindsOf text ++ [.rightParen]) := by
        rw [wrap, String.append_assoc, TokenStream.kindsOf_is, hone]
      exact exists_compile_function hs hplain (by decide +kernel) (by decide) hkinds hbalanced
  | whereAny =>
      have hkinds : TokenStream.kindsOf (whereAny.wrap text) =
          .colon :: .function "where" :: (TokenStream.kindsOf text ++ [.rightParen]) := by
        rw [wrap, String.append_assoc, TokenStream.kindsOf_where, hone]
      exact exists_compile_function hs hplain (by decide +kernel) (by decide) hkinds hbalanced
  | notNot =>
      have hkinds : TokenStream.kindsOf (notNot.wrap text) = .colon :: .function "not" ::
          .colon :: .function "not" ::
            (TokenStream.kindsOf text ++ [.rightParen, .rightParen]) := by
        rw [wrap, String.append_assoc, TokenStream.kindsOf_notNot, htwo]
      exact exists_compile_notNot hs hplain hkinds hbalanced

end Wrapper

end Selectors

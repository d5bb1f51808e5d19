import Selectors.Proofs.Compiled.Compositional
import Selectors.Proofs.Compiled.Tracked

/-!
# Forgiving lists

The argument of `:is()` and `:where()` is a list of which members that fail are left out.  What they
stored before they failed stays in the arena, and so the others are stored at other places than they
would be without them.  But what is stored for a list expands to the members as each is compiled by
itself, and no later part is compiled in another way.

* `Compile.outcome` is what a run comes to, without places.
* `Compile.alone?` is what a member of a forgiving list is when it is compiled by itself.
* `Compile.Indifferent` says of a step that what was stored before does not count.
* `Compile.ReadWith` are the complex selectors in a text with the levels that are left for them.
-/

namespace Selectors

namespace Compile

variable {α β : Type} {E : Part α β} {x y : Compile α} {a a' : Arena} {ctx : CompileContext}
  {level : Nat}

/-- What a run comes to: the expansion of its result, or its failure. -/
def outcome (E : Part α β) (x : Compile α) (a : Arena) : Except SelectorError β :=
  match runFrom x a with
  | (.ok v, b) => .ok (E.expand b v)
  | (.error e, _) => .error e

/-- Runs that end as one come to the same. -/
theorem Twin.outcome_eq (h : Twin E a a' x y) (ha : a.Closed) (ha' : a'.Closed) :
    outcome E x a = outcome E y a' := by
  obtain ⟨-, -, -, -, hends⟩ := h ha ha'
  unfold outcome
  generalize runFrom x a = p, runFrom y a' = p' at hends
  obtain ⟨r, b⟩ := p
  obtain ⟨r', b'⟩ := p'
  cases hends with
  | error e => rfl
  | ok hv => exact congrArg Except.ok hv.expand

/-! ### What was stored before -/

/-- What the step comes to does not depend on what was stored before, and nothing that was stored
is changed. -/
structure Indifferent (E : Part α β) (x : Compile α) : Prop where
  outcome : ∀ {a a' : Arena}, a.Closed → a'.Closed → outcome E x a = outcome E x a'
  grows : ∀ {a : Arena}, a.Closed → a.Grows (runFrom x a).2
  closed : ∀ {a : Arena}, a.Closed → (runFrom x a).2.Closed

/-- A step that runs as one from all arenas does not depend on the arena. -/
theorem Indifferent.of_twin (h : ∀ a a', Twin E a a' x x) : Indifferent E x where
  outcome ha ha' := (h _ _).outcome_eq ha ha'
  grows ha := (h _ _ ha ha).grows
  closed ha := (h _ _ ha ha).closed

/-- With the same number of levels in both runs any tokens are compiled as one. -/
theorem list_uniform_self (level n : Nat) :
    ListCompiler.Uniform n (list level) (list level) := by
  induction level generalizing n with
  | zero => exact fun _ _ _ _ _ _ _ => Twin.throw _
  | succ level ih =>
      cases n with
      | zero => exact fun _ _ _ _ _ _ hlength => absurd hlength (Nat.not_lt_zero _)
      | succ n => exact listWith_uniform (ih n)

/-- **Each step is indifferent** to what was stored before. -/
theorem indifferent (level : Nat) (ctx : CompileContext) :
    (∀ name args text, Indifferent Part.pseudoClass (pseudoClass (list level) ctx name args text)) ∧
      (∀ relative node, Indifferent Part.complex (complex (list level) ctx relative node)) ∧
        ∀ mode tokens text, Indifferent (Part.argument mode) (list level ctx mode tokens text) := by
  refine ⟨fun name args text => ?_, fun relative node => ?_, fun mode tokens text => ?_⟩
  · obtain ⟨n, hn⟩ := Component.exists_within [.pseudoClass name args text]
    exact .of_twin fun a a' =>
      pseudoClass_twin (list_uniform_self level n) name (hn _ List.mem_cons_self) text
  · obtain ⟨n, hn⟩ := node.exists_within
    exact .of_twin fun a a' => complex_twin (list_uniform_self level n) relative hn
  · exact .of_twin fun a a' =>
      list_uniform_self level _ ctx mode tokens text a a' (Nat.lt_succ_self _)

/-! ### Members -/

/-- What a member of a forgiving list is when it is compiled by itself, from an arena without parts:
nothing where it is blank or fails. -/
def alone? (ctx : CompileContext) (m : List Token) : Option (ComplexTree ListTree) :=
  if (Token.trim m).isEmpty then none
  else (outcome Part.complex (member (list m.length) ctx false m) {}).toOption

/-- A member comes to what it comes to by itself, from any arena and with any levels that are
enough. -/
theorem member_outcome {m : List Token} (hlevel : m.length ≤ level) (relative : Bool)
    (ha : a.Closed) :
    outcome Part.complex (member (list level) ctx relative m) a =
      outcome Part.complex (member (list m.length) ctx relative m) {} := by
  have hwithin : ListCompiler.Uniform m.length (list level) (list m.length) := by
    have huniform := list_uniform level m.length
    rwa [Nat.min_eq_right hlevel] at huniform
  have htwin : Twin Part.complex a {} (member (list level) ctx relative m)
      (member (list m.length) ctx relative m) := member_twin hwithin relative (Nat.le_refl _)
  exact htwin.outcome_eq ha Arena.closed_empty

/-- **One member** is forgiven for failing, and else stored as it is by itself. -/
theorem forgivenMember_outcome {m : List Token} (hlevel : m.length ≤ level) (ha : a.Closed) :
    outcome Part.complex.optional (forgivenMember (list level) ctx m) a = .ok (alone? ctx m) := by
  have halone : outcome Part.complex (member (list level) ctx false m) a = _ :=
    member_outcome hlevel false ha
  rw [forgivenMember_eq]
  unfold alone?
  split
  · rfl
  · rw [← halone]
    unfold outcome
    rw [runFrom_tryCatch, map_eq_pure_bind, runFrom_bind]
    rcases runFrom (member (list level) ctx false m) a with ⟨_ | c, b⟩ <;> rfl

/-! ### Lists -/

/-- From every closed arena the step succeeds, and its result expands to `w`. -/
def ComesTo (E : Part α β) (x : Compile α) (w : β) : Prop :=
  ∀ a : Arena, a.Closed → ∃ v b, runFrom x a = (.ok v, b) ∧ a.Grows b ∧ b.Closed ∧
    E.Stored b v ∧ E.expand b v = w

namespace ComesTo

variable {γ δ ι : Type} {G : Part γ δ} {w : β} {f : α → Compile γ} {u : δ}

/-- A step comes to what it gives from all arenas. -/
theorem of_outcome (htwin : ∀ a a', Twin E a a' x x)
    (hout : ∀ a : Arena, a.Closed → outcome E x a = .ok w) : ComesTo E x w := by
  intro a ha
  obtain ⟨hgrows, -, hclosed, -, hends⟩ := htwin a a ha ha
  have hw := hout a ha
  unfold outcome at hw
  rcases hrun : runFrom x a with ⟨_ | v, b⟩
  · rw [hrun] at hw
    cases hw
  · rw [hrun] at hw hgrows hclosed hends
    cases hends with
    | ok hv => exact ⟨v, b, rfl, hgrows, hclosed, hv.stored, Except.ok.inj hw⟩

/-- A row of members that are left out where they come to nothing. -/
theorem filterMapM {f : ι → Compile (Option α)} {g : ι → Option β} {xs : List ι}
    (hfg : ∀ x ∈ xs, ComesTo E.optional (f x) (g x)) :
    ComesTo E.many (xs.filterMapM f) (xs.filterMap g) := by
  induction xs with
  | nil =>
      intro a ha
      exact ⟨[], a, rfl, Arena.Grows.refl a, ha, fun v hv => absurd hv List.not_mem_nil, rfl⟩
  | cons x xs ih =>
      intro a ha
      obtain ⟨o, b, ho, hgrows, hb, hstored, hexpand⟩ := hfg x List.mem_cons_self a ha
      obtain ⟨vs, c, hvs, hgrows', hc, hstored', hexpand'⟩ :=
        ih (fun y hy => hfg y (List.mem_cons_of_mem x hy)) b hb
      rw [List.filterMapM_cons, runFrom_bind_ok ho]
      cases o with
      | none =>
          refine ⟨vs, c, hvs, hgrows.trans hgrows', hc, hstored', ?_⟩
          rw [List.filterMap_cons_none hexpand.symm, hexpand']
      | some v =>
          obtain ⟨hkept, hsame⟩ := E.lasts hb hgrows' (hstored v rfl)
          refine ⟨v :: vs, c, runFrom_bind_ok hvs, hgrows.trans hgrows', hc,
            List.forall_mem_cons.mpr ⟨hkept, hstored'⟩, ?_⟩
          rw [List.filterMap_cons_some hexpand.symm, ← hexpand', ← hsame]
          rfl

/-- A list of members that come to `ws`. -/
theorem pushList {x : Compile (List ComplexId)} {ws : List (ComplexTree ListTree)}
    (hx : ComesTo Part.complex.many x ws) :
    ComesTo (Part.argument .forgiving) (x >>= Compile.pushList)
      (.node ws (ws.any ComplexTree.bearsHas)) := by
  intro a ha
  obtain ⟨cs, b, hcs, hgrows, hb, hstored, hexpand⟩ := hx a ha
  have hcs' : ListMode.forgiving = .compound → cs ≠ [] := fun h => by cases h
  obtain ⟨hgrows', -, hclosed, -, hends⟩ :=
    Twin.pushList (⟨hstored, hstored, rfl⟩ : Part.Same _ b b cs cs) hcs' hcs'
      hb hb
  rw [runFrom_bind_ok hcs]
  refine ⟨⟨b.lists.size⟩, _, rfl, hgrows.trans hgrows', hclosed, ?_, ?_⟩
  · cases hends with
    | ok hl => exact hl.stored
  · refine (hb.expand_pushList (L := ⟨cs, cs.any b.complexBearsHas⟩) hstored).trans ?_
    have hhas : b.complexBearsHas = ComplexTree.bearsHas ∘ b.expandComplex :=
      funext b.complexBearsHas_eq
    rw [hhas, ← List.any_map]
    exact congrArg (fun ws => ListTree.node ws (ws.any ComplexTree.bearsHas)) hexpand

end ComesTo

/-- **A forgiving list** expands to its members as each of them is by itself.  A list may stand
behind `of` in its argument. -/
theorem list_comesTo (ctx : CompileContext) {tokens : List Token} (hlevel : tokens.length < level)
    (text : String) :
    ComesTo (Part.argument .forgiving) (list level ctx .forgiving tokens text)
      (.node ((Token.splitList tokens).filterMap (alone? ctx))
        (((Token.splitList tokens).filterMap (alone? ctx)).any ComplexTree.bearsHas)) := by
  obtain ⟨level, rfl⟩ := Nat.exists_eq_succ_of_ne_zero (Nat.ne_zero_of_lt hlevel)
  refine ComesTo.pushList (ComesTo.filterMapM fun m hm => ?_)
  have hlength : m.length ≤ level :=
    Nat.le_trans (Token.length_le_of_mem_splitList hm) (Nat.le_of_lt_succ hlevel)
  exact .of_outcome
    (fun a a' => forgivenMember_twin (list_uniform_self level m.length) (Nat.le_refl _))
    fun a ha => forgivenMember_outcome hlength ha

/-! ### Levels -/

/-- The complex selectors that are read in a text, with the number of levels that are left for the
lists in them: the members of the text, and one level below a selector those in the arguments of its
components. -/
inductive ReadWith (source : List Char) (tokens : List Token) : Nat → ComplexNode → Prop
  | member {relative : Bool} {m : List Token} {node : ComplexNode}
      (hm : m ∈ Token.splitList tokens)
      (hread : ComplexNode.ofTokens source relative m = .ok node) :
      ReadWith source tokens tokens.length node
  | inside {level : Nat} {outer node : ComplexNode} {c : Component} {args : Arguments}
      {list m : List Token} {relative : Bool} (houter : ReadWith source tokens (level + 1) outer)
      (hc : c ∈ outer.first ∨ ∃ step ∈ outer.joined, c ∈ step.2)
      (hargs : c.arguments? = some args)
      (hlist : list <:+ args.tokens) (hm : m ∈ Token.splitList list)
      (hread : ComplexNode.ofTokens source relative m = .ok node) :
      ReadWith source tokens level node

/-- **There are always levels enough** for the arguments in what is read. -/
theorem ReadWith.within {source : List Char} {tokens : List Token} {node : ComplexNode}
    (h : ReadWith source tokens level node) : node.Within level := by
  induction h with
  | member hm hread => exact ComplexNode.ofTokens_within hread (Token.length_le_of_mem_splitList hm)
  | @inside level _ _ _ args _ _ _ _ hc hargs hlist hm hread ih =>
      have hshort : args.tokens.length < level + 1 := by
        rcases hc with hc | ⟨step, hstep, hc⟩
        · exact ih.first _ hc _ hargs
        · exact ih.joined step hstep _ hc _ hargs
      refine ComplexNode.ofTokens_within hread ?_
      exact (Token.length_le_of_mem_splitList hm).trans
        (hlist.length_le.trans (Nat.le_of_lt_succ hshort))

/-- **Forgiving lists are made of what their members are alone, and failures leave no trace.**
Whatever is around and whatever was stored before, the argument of `:is()` or `:where()` compiles,
and from then on expands to those of its members, in their order, that compile alone.  Each step of
the compiler is indifferent to what was stored before; and one that keeps a flag and a depth in its
state leaves them as they were, with a result or without.  Wherever a selector is read in a text
there are more levels than tokens in its arguments. -/
theorem forgiving_expands_alone {name : String} {op : Logical} {args : Arguments}
    (hname : PseudoClassName.ofText? name = some (.logical op)) (hop : op = .is ∨ op = .whereAny)
    (hlevel : args.tokens.length < level) (ha : a.Closed) (ctx : CompileContext) (text : String) :
    (∃ l b ms, runFrom (pseudoClass (list level) ctx name (some args) text) a =
        (.ok (.logical op l), b) ∧ a.Grows b ∧ b.Closed ∧
      ms = (Token.splitList args.tokens).filterMap (alone? { ctx with nested := true }) ∧
      ∀ c, b.Grows c → c.expand l = .node ms (ms.any ComplexTree.bearsHas)) ∧
    (∀ level ctx,
      (∀ name args text,
        Indifferent Part.pseudoClass (pseudoClass (list level) ctx name args text)) ∧
      (∀ relative node, Indifferent Part.complex (complex (list level) ctx relative node)) ∧
      ∀ mode tokens text, Indifferent (Part.argument mode) (list level ctx mode tokens text)) ∧
    (∀ source level, Tracked.Keeps source level) ∧
    (∀ text, Tracked.compile text = compile text) ∧
      ∀ source tokens level node, ReadWith source tokens level node → node.Within level := by
  refine ⟨?_, indifferent, Tracked.keeps, Tracked.compile_eq, fun _ _ _ _ => ReadWith.within⟩
  obtain ⟨l, b, hrun, hgrows, hb, hstored, hexpand⟩ :=
    list_comesTo { ctx with nested := true } hlevel text a ha
  refine ⟨l, b, _, ?_, hgrows, hb, rfl, fun c hc => ?_⟩
  · unfold pseudoClass
    rw [hname]
    rcases hop with rfl | rfl
    · exact runFrom_bind_ok hrun
    · exact runFrom_bind_ok hrun
  · exact (hb.expand_of_grows hc hstored.1).trans hexpand

/-- In `:is(a,:is(b):x,.c)` the second member fails when a list is stored for it. -/
theorem forgiving_expands_alone_unknownMember :
    let stream := TokenStream.read "a,:is(b):x,.c"
    ∃ l b, runFrom (pseudoClass (list 12) { source := stream.source } "is"
        (some ⟨stream.tokens, "a,:is(b):x,.c"⟩) ":is(a,:is(b):x,.c)") {} =
          (.ok (.logical .is l), b) ∧
      b.lists.size = 2 ∧ (b.expand l).members.map ComplexTree.text = ["a", ".c"] := by
  intro stream
  obtain ⟨⟨l, b, ms, hrun, -, -, hms, hexpand⟩, -⟩ :=
    @forgiving_expands_alone {} 12 "is" .is ⟨stream.tokens, "a,:is(b):x,.c"⟩ (by decide +kernel)
      (Or.inl rfl) (by decide +kernel) Arena.closed_empty { source := stream.source }
      ":is(a,:is(b):x,.c)"
  have htexts : ms.map ComplexTree.text = ["a", ".c"] := by
    rw [hms]
    decide +kernel
  refine ⟨l, b, hrun, ?_, ?_⟩
  · have hsize := congrArg (fun p => p.2.lists.size) hrun
    rw [← hsize]
    decide +kernel
  · rw [hexpand b (Arena.Grows.refl b)]
    exact htexts

end Compile

end Selectors

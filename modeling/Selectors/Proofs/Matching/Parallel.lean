import Selectors.Matching.Basic
import Selectors.Proofs.Running
import Selectors.Proofs.Compiled.Routes
import Selectors.Proofs.Tree.Relations

/-!
# Matching twice in parallel

Two ways of matching the lists inside of a selector give two ways of matching the selector.  A
relation between computations that each step keeps holds of the two as soon as it holds of the
lists that can be asked: those of the tests of a compound, at the node and beside it, and for
`:host()` at the host and what is around it.

* `Matcher.Parallel` is such a relation; the second matcher may differ in what it is strict about,
  in what it remembers, and in what `:scope` stands for where no test asks for it.
* `Matcher.Asks` collects what a compound may ask at a node.
* `Matcher.Parallel.matchCompound` and `Matcher.Parallel.matchChain` carry the relation upwards.
* `Matcher.Parallel.nested` carries it to all lists, where neither a scope nor a node is special.
-/

namespace Selectors

/-- A failure that says that something known is not evaluated. -/
def SelectorError.Unevaluated (e : SelectorError) : Prop :=
  ∃ name, e = .unsupportedPseudoClass name ∨ e = .unsupportedPseudoElement name

namespace SimpleSelector

/-- Whether a test names a namespace by a prefix. -/
def namesPrefix : SimpleSelector → Bool
  | .type (.named _) _ => true
  | .attribute test =>
    match test.space with
    | .named _ => true
    | _ => false
  | _ => false

/-- Whether a test is `:scope`, or `&`, which stands for it. -/
def asksScope : SimpleSelector → Bool
  | .pseudo (.state .scope) => true
  | _ => false

end SimpleSelector

namespace Arena

/-- Whether some stored test has a property. -/
def HasTest (a : Arena) (p : SimpleSelector → Bool) : Prop :=
  ∃ d, ∃ s ∈ (a.compound d).simples, p s = true

/-- Whether some test names a namespace by a prefix. -/
abbrev NamesPrefix (a : Arena) : Prop :=
  a.HasTest SimpleSelector.namesPrefix

/-- Whether some test is `:scope`. -/
abbrev AsksScope (a : Arena) : Prop :=
  a.HasTest SimpleSelector.asksScope

/-- Looking for a test finds one that is stored. -/
theorem hasTest_iff {a : Arena} {p : SimpleSelector → Bool} :
    (a.compounds.any fun c => c.simples.any p) = true ↔ a.HasTest p := by
  rw [Array.any_eq_true]
  constructor
  · intro hany
    obtain ⟨i, hi, hc⟩ := hany
    obtain ⟨s, hs, hp⟩ := List.any_eq_true.mp hc
    refine ⟨⟨i⟩, s, ?_, hp⟩
    simpa [compound, hi] using hs
  · intro hhas
    obtain ⟨d, s, hs, hp⟩ := hhas
    unfold compound at hs
    cases hd : a.compounds[d.index]? with
    | none =>
        rw [hd] at hs
        exact absurd hs List.not_mem_nil
    | some c =>
        rw [hd] at hs
        obtain ⟨hi, rfl⟩ := Array.getElem?_eq_some_iff.mp hd
        exact ⟨d.index, hi, List.any_eq_true.mpr ⟨s, hs, hp⟩⟩

instance (a : Arena) (p : SimpleSelector → Bool) : Decidable (a.HasTest p) :=
  decidable_of_iff _ hasTest_iff

end Arena

namespace Matcher

/-- The matcher with another node for `:scope`, another strictness and another memory. -/
abbrev tuned (m : Matcher) (scope : Option NodeId) (strict remembers : Bool) : Matcher :=
  { m with scope, strict, remembers }

/-- A relation between computations of two matchers that every step keeps. -/
structure Parallel (m : Matcher) (scope : Option NodeId) (strict remembers : Bool)
    (R : ∀ α : Type, Matching α → Matching α → Prop) : Prop where
  same : scope = m.scope ∨ ¬m.arena.AsksScope
  pure : ∀ {α : Type} (a : α), R α (Pure.pure a) (Pure.pure a)
  bind : ∀ {α β : Type} {x y : Matching α} {f g : α → Matching β}, R α x y →
    (∀ a, R β (f a) (g a)) → R β (x >>= f) (y >>= g)
  state : ∀ n s, scope = m.scope ∨ s ≠ .scope →
    R Bool (m.matchState n s) ((m.tuned scope strict remembers).matchState n s)
  unsupported : ∀ e : SelectorError, e.Unevaluated →
    R Bool (m.unsupported e) ((m.tuned scope strict remembers).unsupported e)
  fail : m.arena.NamesPrefix → ∀ {α : Type} e, R α (throw e) (throw e)

variable {t : Tree} {m : Matcher} {scope : Option NodeId} {strict remembers : Bool}
  {R : ∀ α : Type, Matching α → Matching α → Prop} {sub sub' : Nested} {σ σ' : ShadowScope}

namespace Parallel

/-! ### Rows of tests -/

/-- Rows of parallel tests ask in parallel whether one passes. -/
theorem anyM (P : m.Parallel scope strict remembers R) {α : Type} {f g : α → Matching Bool}
    {xs : List α} (h : ∀ x ∈ xs, R Bool (f x) (g x)) : R Bool (xs.anyM f) (xs.anyM g) := by
  induction xs with
  | nil => exact P.pure false
  | cons x xs ih =>
      refine P.bind (h x List.mem_cons_self) fun b => ?_
      cases b with
      | true => exact P.pure true
      | false => exact ih fun y hy => h y (List.mem_cons_of_mem x hy)

/-- Rows of parallel tests ask in parallel whether all pass. -/
theorem allM (P : m.Parallel scope strict remembers R) {α : Type} {f g : α → Matching Bool}
    {xs : List α} (h : ∀ x ∈ xs, R Bool (f x) (g x)) : R Bool (xs.allM f) (xs.allM g) := by
  induction xs with
  | nil => exact P.pure true
  | cons x xs ih =>
      refine P.bind (h x List.mem_cons_self) fun b => ?_
      cases b with
      | true => exact ih fun y hy => h y (List.mem_cons_of_mem x hy)
      | false => exact P.pure false

/-- Filters by parallel tests are parallel. -/
theorem filterM (P : m.Parallel scope strict remembers R) {α : Type} {f g : α → Matching Bool}
    {xs : List α} (h : ∀ x ∈ xs, R Bool (f x) (g x)) :
    R (List α) (xs.filterM f) (xs.filterM g) := by
  induction xs with
  | nil => exact P.pure []
  | cons x xs ih =>
      rw [filterM_cons, filterM_cons]
      refine P.bind (h x List.mem_cons_self) fun b => ?_
      exact P.bind (ih fun y hy => h y (List.mem_cons_of_mem x hy)) fun ys => P.pure _

end Parallel

/-! ### Compounds -/

/-- Whether a node is a sibling of another one. -/
def Beside (m : Matcher) (x n : NodeId) : Prop :=
  x ∈ m.tree.precedingSiblings n ∨ x ∈ m.tree.followingSiblings n

/-- What a compound asks at a node is related: the lists of its tests at the node and beside it, and
at a shadow root that stands for its host the arguments of `:host()` around the host. -/
structure Asks (m : Matcher) (R : ∀ α : Type, Matching α → Matching α → Prop)
    (sub sub' : Nested) (σ σ' : ShadowScope) (d : CompoundId) (n : NodeId) : Prop where
  list : ∀ s ∈ (m.arena.compound d).simples, s.asksHost = false → Compile.isHas s = false →
    ∀ l, s.nestedList? = some l → ∀ x, x = n ∨ m.Beside x n →
      R Bool (sub.list σ l x) (sub'.list σ' l x)
  has : ∀ l, .pseudo (.logical .has l) ∈ (m.arena.compound d).simples →
    R Bool (sub.has σ l n) (sub'.has σ' l n)
  host : ∀ s ∈ (m.arena.compound d).simples, s.asksHost = true → ∀ l, s.nestedList? = some l →
    ∀ e x, m.tree.kind n = .shadowRoot → σ = some n → m.tree.shadowHost n = some e →
      x ∈ m.tree.hostingAncestors e → R Bool (sub.list σ l x) (sub'.list σ' l x)
  isHost : m.tree.kind n = .shadowRoot → (σ = some n ↔ σ' = some n)

/-- The siblings of a node stand in its tree. -/
theorem rootOf_of_sibling (h : t.WellFormed) {n x : NodeId}
    (hx : x ∈ t.precedingSiblings n ∨ x ∈ t.followingSiblings n) : t.rootOf x = t.rootOf n := by
  rcases hx with hx | hx
  · obtain ⟨between, hbefore⟩ := h.mem_precedingSiblings.mp hx
    obtain ⟨p, hxp, hnp⟩ := h.parent_of_siblingBefore hbefore
    rw [h.rootOf_of_parent hxp, h.rootOf_of_parent hnp]
  · obtain ⟨between, hbefore⟩ := h.mem_followingSiblings.mp hx
    obtain ⟨p, hnp, hxp⟩ := h.parent_of_siblingBefore hbefore
    rw [h.rootOf_of_parent hxp, h.rootOf_of_parent hnp]

/-- So do the nodes that a compound asks about apart from hosts. -/
theorem rootOf_of_asked (h : t.WellFormed) (hm : m.tree = t.view) {n x : NodeId}
    (hx : x = n ∨ m.Beside x n) : t.rootOf x = t.rootOf n := by
  rcases hx with rfl | hx
  · rfl
  · unfold Beside at hx
    rw [hm] at hx
    exact rootOf_of_sibling h hx

namespace Parallel

/-- A counting test is parallel if what it counts is asked in parallel. -/
theorem matchNth (P : m.Parallel scope strict remembers R)
    {kind : NthKind} {formula : AnB} {filter : Option ListId} {n : NodeId}
    (hask : ∀ l, filter = some l → ∀ x, x = n ∨ m.Beside x n →
      R Bool (sub.list σ l x) (sub'.list σ' l x)) :
    R Bool (m.matchNth sub σ kind formula filter n)
      ((m.tuned scope strict remembers).matchNth sub' σ' kind formula filter n) := by
  have htest : ∀ x ∈ (if kind.fromEnd then m.tree.followingSiblings n
        else m.tree.precedingSiblings n).filter m.tree.isElement,
      R Bool
        (if kind.countsType then Pure.pure (m.tree.sameType x n)
          else match filter with
            | some l => sub.list σ l x
            | none => Pure.pure true)
        (if kind.countsType then Pure.pure (m.tree.sameType x n)
          else match filter with
            | some l => sub'.list σ' l x
            | none => Pure.pure true) := by
    intro x hx
    split
    · exact P.pure _
    · cases filter with
      | none => exact P.pure true
      | some l =>
          refine hask l rfl x (Or.inr ?_)
          have hmem := (List.mem_filter.mp hx).1
          split at hmem
          · exact Or.inr hmem
          · exact Or.inl hmem
  unfold Matcher.matchNth
  cases filter with
  | none => exact P.bind (P.filterM htest) fun counted => P.pure _
  | some l =>
      refine P.bind (hask l rfl n (Or.inl rfl)) fun b => ?_
      cases b with
      | false => exact P.pure false
      | true => exact P.bind (P.filterM htest) fun counted => P.pure _

/-- One test of an element. -/
theorem matchSimple (P : m.Parallel scope strict remembers R) {d : CompoundId} {n : NodeId}
    (hask : Asks m R sub sub' σ σ' d n)
    {s : SimpleSelector} (hs : s ∈ (m.arena.compound d).simples) :
    R Bool (m.matchSimple sub σ n s)
      ((m.tuned scope strict remembers).matchSimple sub' σ' n s) := by
  have hfail : ∀ r : Except SelectorError Bool, (∀ e, r = .error e → m.arena.NamesPrefix) →
      R Bool (Matcher.matchSimple.liftExcept r) (Matcher.matchSimple.liftExcept r) := by
    intro r hr
    cases r with
    | ok b => exact P.pure b
    | error e => exact P.fail (hr e rfl) e
  cases s with
  | type space name =>
      refine hfail _ fun e he => ⟨d, _, hs, ?_⟩
      cases space with
      | named p => rfl
      | _ => cases he
  | id name => exact P.pure _
  | «class» name => exact P.pure _
  | «attribute» test =>
      refine hfail _ fun e he => ⟨d, _, hs, ?_⟩
      unfold TreeView.matchesAttribute at he
      unfold SimpleSelector.namesPrefix
      cases hspace : test.space with
      | named p => simp only [hspace]
      | _ =>
          rw [hspace] at he
          cases he
  | pseudo p =>
      cases p with
      | logical op l =>
          cases op with
          | is => exact hask.list _ hs rfl rfl l rfl n (Or.inl rfl)
          | whereAny => exact hask.list _ hs rfl rfl l rfl n (Or.inl rfl)
          | not =>
              exact P.bind (hask.list _ hs rfl rfl l rfl n (Or.inl rfl)) fun b => P.pure _
          | has => exact hask.has l hs
      | nth kind formula filter =>
          exact P.matchNth fun l hl x hx => hask.list _ hs rfl rfl l hl x hx
      | state state =>
          refine P.state n state ?_
          rcases P.same with hscope | hscope
          · exact Or.inl hscope
          · refine Or.inr ?_
            rintro rfl
            exact hscope ⟨d, _, hs, rfl⟩
      | unsupported name => exact P.unsupported _ ⟨name, Or.inl rfl⟩
      | _ => exact P.pure _

/-- One test of a node that is no element. -/
theorem matchFeature (P : m.Parallel scope strict remembers R) {d : CompoundId} {n : NodeId}
    (hask : Asks m R sub sub' σ σ' d n) {s : SimpleSelector}
    (hs : s ∈ (m.arena.compound d).simples) {isHost : Bool}
    (hhost : isHost = true → m.tree.kind n = .shadowRoot ∧ σ = some n) {isScope isScope' : Bool}
    (hscope : isScope' = isScope ∨ ¬m.arena.AsksScope) :
    R Bool (m.matchFeature sub σ isHost isScope n s)
      ((m.tuned scope strict remembers).matchFeature sub' σ' isHost isScope' n s) := by
  have haround : ∀ l e x, s.asksHost = true → s.nestedList? = some l → isHost = true →
      m.tree.shadowHost n = some e → x ∈ m.tree.hostingAncestors e →
        R Bool (sub.list σ l x) (sub'.list σ' l x) := by
    intro l e x hasks hl hisHost he hx
    obtain ⟨hkind, hσ⟩ := hhost hisHost
    exact hask.host s hs hasks l hl e x hkind hσ he hx
  cases s with
  | pseudo p =>
      cases p with
      | logical op l =>
          cases op with
          | is => exact hask.list _ hs rfl rfl l rfl n (Or.inl rfl)
          | whereAny => exact hask.list _ hs rfl rfl l rfl n (Or.inl rfl)
          | not => exact P.pure false
          | has => exact P.pure false
      | host argument =>
          cases argument with
          | none => exact P.pure isHost
          | some l =>
              simp only [Matcher.matchFeature]
              split
              · rename_i e he
                split
                · exact haround l e e rfl rfl ‹_› he List.mem_cons_self
                · exact P.pure false
              · exact P.pure false
      | hostContext l =>
          simp only [Matcher.matchFeature]
          split
          · rename_i e he
            split
            · refine P.anyM fun x hx => ?_
              exact haround l e x rfl rfl ‹_› he (List.mem_filter.mp hx).1
            · exact P.pure false
          · exact P.pure false
      | state state =>
          cases state with
          | scope =>
              rcases hscope with rfl | hscope
              · exact P.pure isScope'
              · exact absurd ⟨d, _, hs, rfl⟩ hscope
          | _ => exact P.pure false
      | _ => exact P.pure false
  | _ => exact P.pure false

/-- **A compound** is matched in parallel if what it asks is. What is no element and no host passes
nothing without `:scope`, so that there the two may differ in how they find that out. -/
theorem matchCompound (P : m.Parallel scope strict remembers R) {d : CompoundId} {n : NodeId}
    (hask : Asks m R sub sub' σ σ' d n)
    (hn : scope = m.scope ∨ m.tree.isElement n = true ∨
      (m.tree.kind n = .shadowRoot ∧ σ = some n)) :
    R Bool (m.matchCompound sub σ d n)
      ((m.tuned scope strict remembers).matchCompound sub' σ' d n) := by
  unfold Matcher.matchCompound
  dsimp only
  split
  · exact P.unsupported _ ⟨_, Or.inr rfl⟩
  split
  · exact P.allM fun s hs => P.matchSimple hask (Compound.mem_simples hs)
  rename_i helement
  unfold Matcher.matchFeatureless
  have hsame : (m.tree.kind n == .shadowRoot && σ == some n) =
      (m.tree.kind n == .shadowRoot && σ' == some n) := by
    by_cases hkind : m.tree.kind n = .shadowRoot
    · have hiff := hask.isHost hkind
      by_cases hσ : σ = some n
      · rw [hσ, hiff.mp hσ]
      · have hσ' : σ' ≠ some n := fun h' => hσ (hiff.mpr h')
        rw [beq_eq_false_iff_ne.mpr hσ, beq_eq_false_iff_ne.mpr hσ']
    · rw [beq_eq_false_iff_ne.mpr hkind, Bool.false_and, Bool.false_and]
  have htests : ∀ isScope isScope', (isScope' = isScope ∨ ¬m.arena.AsksScope) →
      R Bool
        ((m.arena.compound d).inOrder.allM
          (m.matchFeature sub σ (m.tree.kind n == .shadowRoot && σ == some n) isScope n))
        ((m.arena.compound d).inOrder.allM ((m.tuned scope strict remembers).matchFeature sub' σ'
          (m.tree.kind n == .shadowRoot && σ == some n) isScope' n)) := by
    intro isScope isScope' hscope
    refine P.allM fun s hs => ?_
    refine P.matchFeature hask (Compound.mem_simples hs) (fun hhost => ?_) hscope
    rw [Bool.and_eq_true, beq_iff_eq, beq_iff_eq] at hhost
    exact hhost
  dsimp only
  rw [← hsame]
  rcases hn with rfl | hn | ⟨hkind, hσ⟩
  · split
    · exact P.pure false
    · exact htests _ _ (Or.inl rfl)
  · exact absurd hn helement
  · have hhost : (m.tree.kind n == .shadowRoot && σ == some n) = true := by
      rw [Bool.and_eq_true, beq_iff_eq, beq_iff_eq]
      exact ⟨hkind, hσ⟩
    rw [hhost] at htests ⊢
    simp only [Bool.true_or, Bool.not_true, Bool.false_or]
    split
    · exact P.pure false
    · refine htests _ _ ?_
      rcases P.same with rfl | hscope
      · exact Or.inl rfl
      · exact Or.inr hscope

end Parallel

/-! ### Chains -/

/-- The compounds that a chain tests on all its ways to the left are matched in parallel. -/
def AlikeAlong (m : Matcher) (scope : Option NodeId) (strict remembers : Bool)
    (R : ∀ α : Type, Matching α → Matching α → Prop) (sub sub' : Nested) :
    List (Combinator × CompoundId) → ShadowScope → ShadowScope → CompoundId → NodeId → Prop
  | [], σ, σ', c, n =>
    R Bool (m.matchCompound sub σ c n)
      ((m.tuned scope strict remembers).matchCompound sub' σ' c n)
  | (q, d) :: more, σ, σ', c, n =>
    R Bool (m.matchCompound sub σ c n)
      ((m.tuned scope strict remembers).matchCompound sub' σ' c n) ∧
    ∀ left ∈ m.tree.leftOf n q, AlikeAlong m scope strict remembers R sub sub' more
      (m.scopeAcross σ left q) (m.scopeAcross σ' left q) d left

namespace Parallel

/-- **A chain** is matched in parallel if its compounds are. -/
theorem matchChain (P : m.Parallel scope strict remembers R)
    (anchor : Option (Combinator × NodeId)) {steps : List (Combinator × CompoundId)}
    {c : CompoundId} {n : NodeId}
    (halike : AlikeAlong m scope strict remembers R sub sub' steps σ σ' c n) :
    R Bool (m.matchChain sub anchor steps σ c n)
      ((m.tuned scope strict remembers).matchChain sub' anchor steps σ' c n) := by
  induction steps generalizing σ σ' c n with
  | nil =>
      refine P.bind halike fun b => ?_
      cases b with
      | false => exact P.pure false
      | true => exact P.pure _
  | cons step more ih =>
      obtain ⟨q, d⟩ := step
      refine P.bind halike.1 fun b => ?_
      cases b with
      | false => exact P.pure false
      | true => exact P.anyM fun left hleft => ih (halike.2 left hleft)

end Parallel

/-- A chain whose compounds are related in every scope is related on all its ways. -/
theorem alikeAlong_of_compounds {steps : List (Combinator × CompoundId)} {c : CompoundId}
    {n : NodeId}
    (hcompound : ∀ d ∈ c :: steps.map Prod.snd, ∀ σ x,
      R Bool (m.matchCompound sub σ d x)
        ((m.tuned scope strict remembers).matchCompound sub' σ d x)) :
    AlikeAlong m scope strict remembers R sub sub' steps σ σ c n := by
  induction steps generalizing σ c n with
  | nil => exact hcompound c List.mem_cons_self σ n
  | cons step more ih =>
      obtain ⟨q, d⟩ := step
      refine ⟨hcompound c List.mem_cons_self σ n, fun left _ => ?_⟩
      exact ih fun e he => hcompound e (List.mem_cons_of_mem c he)

/-! ### Lists -/

/-- Lists that lie deeper are related in every scope and at every node. -/
def NestedAlike (R : ∀ α : Type, Matching α → Matching α → Prop) (sub sub' : Nested) : Prop :=
  ∀ σ l n, R Bool (sub.list σ l n) (sub'.list σ l n) ∧ R Bool (sub.has σ l n) (sub'.has σ l n)

namespace Parallel

/-- A compound is matched in parallel if the lists inside are. -/
theorem matchCompound_of_alike (P : m.Parallel m.scope strict remembers R)
    (hsub : NestedAlike R sub sub') (σ : ShadowScope) (d : CompoundId) (n : NodeId) :
    R Bool (m.matchCompound sub σ d n)
      ((m.tuned m.scope strict remembers).matchCompound sub' σ d n) := by
  have hask : Asks m R sub sub' σ σ d n :=
    { list := fun _ _ _ _ l _ x _ => (hsub σ l x).1
      has := fun l _ => (hsub σ l n).2
      host := fun _ _ _ l _ _ x _ _ _ _ => (hsub σ l x).1
      isHost := fun _ => Iff.rfl }
  exact P.matchCompound hask (Or.inl rfl)

/-- A complex selector is matched in parallel if the lists inside are. -/
theorem matchComplex_of_alike (P : m.Parallel m.scope strict remembers R)
    (hsub : NestedAlike R sub sub') (anchor : Option (Combinator × NodeId)) (σ : ShadowScope)
    (id : ComplexId) (n : NodeId) :
    R Bool (m.matchComplex sub anchor σ id n)
      ((m.tuned m.scope strict remembers).matchComplex sub' anchor σ id n) :=
  P.matchChain anchor (alikeAlong_of_compounds fun d _ σ x => P.matchCompound_of_alike hsub σ d x)

/-- **Lists are matched in parallel** at every level if answering once is. -/
theorem nested (P : m.Parallel m.scope strict remembers R)
    (honce : ∀ q x y, R Bool x y →
      R Bool (m.answerOnce q x) ((m.tuned m.scope strict remembers).answerOnce q y))
    (depth : Nat) :
    NestedAlike R (m.nested depth) ((m.tuned m.scope strict remembers).nested depth) := by
  induction depth with
  | zero => exact fun _ _ _ => ⟨P.pure false, P.pure false⟩
  | succ depth ih =>
      intro σ l n
      constructor
      · exact P.anyM fun id _ => P.matchComplex_of_alike ih none σ id n
      · refine honce (n, l) _ _ (P.anyM fun id _ => P.anyM fun x _ => ?_)
        exact P.matchComplex_of_alike ih _ σ id x

end Parallel

end Matcher

end Selectors

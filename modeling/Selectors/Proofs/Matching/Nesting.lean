import Selectors.Proofs.Matching.Parallel

/-!
# Levels of nesting and shadow scopes

A list is matched at a level that only has to be high enough, since the lists inside of it were
stored before it.  And the shadow scope of a match counts in one tree only: matching a list at a
node asks whether the root of the node's own tree is the scope, and whatever is asked in other trees
is asked either below a slot, in a scope of its own, or in the argument of `:host()`.

* `Tree.SameScope` relates scopes that differ in other trees at most.
* `Matcher.nested_congr` is the independence of both.
-/

namespace Selectors

namespace ComplexSelector

/-- The subject is one of the compounds. -/
theorem subject_mem (c : ComplexSelector) : c.subject ∈ c.compounds := by
  unfold subject compounds
  split
  · rename_i hlast
    exact List.mem_cons_of_mem _ (List.mem_map.mpr ⟨_, List.mem_of_getLast? hlast, rfl⟩)
  · exact List.mem_cons_self

/-- A compound to the left of the subject is one of the compounds. -/
theorem mem_of_mem_leftward {c : ComplexSelector} {q : Combinator} {d : CompoundId}
    (h : (q, d) ∈ c.leftward) : d ∈ c.compounds :=
  (List.of_mem_zip (List.mem_reverse.mp h)).2

/-- A chain visits no compounds but those of its complex selector. -/
theorem mem_of_mem_chain {c : ComplexSelector} {d : CompoundId}
    (h : d ∈ c.subject :: c.leftward.map Prod.snd) : d ∈ c.compounds := by
  rcases List.mem_cons.mp h with rfl | h
  · exact c.subject_mem
  · obtain ⟨⟨q, e⟩, he, rfl⟩ := List.mem_map.mp h
    exact mem_of_mem_leftward he

/-- The combinators to the left are those of the selector, backwards. -/
theorem map_fst_leftward (c : ComplexSelector) :
    c.leftward.map Prod.fst = c.combinators.reverse := by
  rw [leftward, List.map_reverse, List.map_fst_zip]
  rw [length_compounds]
  exact Nat.le_succ _

/-- What is left of a complex selector without its first compound. -/
def rest (c : ComplexSelector) (d : CompoundId) (more : List (Combinator × CompoundId)) :
    ComplexSelector :=
  { c with first := d, joined := more }

theorem combinators_of_joined {c : ComplexSelector} {q : Combinator} {d : CompoundId}
    {more : List (Combinator × CompoundId)} (h : c.joined = (q, d) :: more) :
    c.combinators = q :: (c.rest d more).combinators := by
  rw [combinators, h]
  rfl

theorem compounds_of_joined {c : ComplexSelector} {q : Combinator} {d : CompoundId}
    {more : List (Combinator × CompoundId)} (h : c.joined = (q, d) :: more) :
    c.compounds = c.first :: (c.rest d more).compounds := by
  rw [compounds, h]
  rfl

/-- To the left the first compound comes last. -/
theorem leftward_of_joined {c : ComplexSelector} {q : Combinator} {d : CompoundId}
    {more : List (Combinator × CompoundId)} (h : c.joined = (q, d) :: more) :
    c.leftward = (c.rest d more).leftward ++ [(q, c.first)] := by
  simp [leftward, combinators, compounds, rest, h]

theorem subject_of_joined {c : ComplexSelector} {q : Combinator} {d : CompoundId}
    {more : List (Combinator × CompoundId)} (h : c.joined = (q, d) :: more) :
    c.subject = (c.rest d more).subject := by
  unfold subject rest
  rw [h, List.getLast?_cons]
  cases more.getLast? with
  | none => rfl
  | some last => rfl

end ComplexSelector

namespace Tree

variable {t : Tree}

/-- Two scopes that are the same, or neither of which is the root of the node's tree. -/
def SameScope (t : Tree) (σ σ' : ShadowScope) (n : NodeId) : Prop :=
  σ = σ' ∨ (σ ≠ some (t.rootOf n) ∧ σ' ≠ some (t.rootOf n))

/-- Whether two scopes are the same for a node is the same for all nodes of its tree. -/
theorem SameScope.congr {σ σ' : ShadowScope} {n x : NodeId} (h : t.SameScope σ σ' n)
    (hroot : t.rootOf x = t.rootOf n) : t.SameScope σ σ' x := by
  unfold SameScope
  rw [hroot]
  exact h

/-- A shadow root is the root of its tree. -/
theorem WellFormed.rootOf_of_shadowRoot (h : t.WellFormed) {n : NodeId}
    (hkind : t.kind n = .shadowRoot) : t.rootOf n = n := by
  refine h.rootOf_of_root ?_
  unfold kind at hkind
  split at hkind
  all_goals try cases hkind
  rename_i hdata
  exact h.roots hdata rfl

/-- Around a host there is no node of its shadow tree. -/
theorem WellFormed.rootOf_ne_of_hosting (h : t.WellFormed) {n e x : NodeId}
    (he : t.shadowHost n = some e) (hx : x ∈ t.view.hostingAncestors e) : t.rootOf x ≠ n := by
  obtain ⟨rank, hrank⟩ := h.ranked
  have hroot : rank (t.rootOf x) ≤ rank x := by
    rcases h.eq_rootOf_or_below x with heq | hbelow
    · exact Nat.le_of_eq (congrArg rank heq.symm)
    · have hup : ∀ {a b}, t.parent a = some b → rank b < rank a := fun hp => hrank (Or.inl hp)
      exact Nat.le_of_lt (rank_lt_of_mem_follow hup (h.mem_ancestors.mpr hbelow))
  have hhosting : ∀ {a b}, t.view.hostingParent a = some b → rank b < rank a :=
    fun hab => rank_lt_of_transGen (hangsFrom_of_hostingParent hab) hrank
  have hxe : rank x ≤ rank e := by
    rcases List.mem_cons.mp hx with rfl | hx
    · exact Nat.le_refl _
    · exact Nat.le_of_lt (rank_lt_of_mem_follow hhosting hx)
  have hen : rank e < rank n := hrank (Or.inr he)
  rintro rfl
  exact absurd (Nat.lt_of_le_of_lt (Nat.le_trans hroot hxe) hen) (Nat.lt_irrefl _)

end Tree

namespace Matcher

variable {t : Tree} {m : Matcher} {σ σ' : ShadowScope}

/-- A matcher is parallel to itself under equality. -/
theorem parallel_eq (m : Matcher) :
    m.Parallel m.scope m.strict m.remembers fun _ x y => x = y where
  same := Or.inl rfl
  pure _ := rfl
  bind := by
    intro α β x y f g hxy hfg
    rw [hxy, funext hfg]
  state _ _ _ := rfl
  unsupported _ _ := rfl
  fail _ _ _ := rfl

/-- What a compound asks is the same in two scopes that differ in other trees at most. -/
theorem asks_of_sameScope (h : t.WellFormed) (hm : m.tree = t.view) {sub sub' : Nested}
    {c : CompoundId} {n : NodeId}
    (hsub : ∀ s ∈ (m.arena.compound c).simples, ∀ l, s.nestedList? = some l →
      ∀ σ σ' x, t.SameScope σ σ' x →
        sub.list σ l x = sub'.list σ' l x ∧ sub.has σ l x = sub'.has σ' l x)
    (hscope : t.SameScope σ σ' n) : Asks m (fun _ x y => x = y) sub sub' σ σ' c n := by
  have hroot : ∀ {scope : ShadowScope}, m.tree.kind n = .shadowRoot → scope = some n →
      scope = some (t.rootOf n) := by
    intro scope hkind hn
    rw [hm] at hkind
    rw [h.rootOf_of_shadowRoot hkind, hn]
  constructor
  · intro s hs _ _ l hl x hx
    exact (hsub s hs l hl σ σ' x (hscope.congr (rootOf_of_asked h hm hx))).1
  · intro l hs
    exact (hsub _ hs l rfl σ σ' n hscope).2
  · intro s hs _ l hl e x hkind hσ he hx
    rcases hscope with heq | ⟨hne, -⟩
    · exact (hsub s hs l hl σ σ' x (Or.inl heq)).1
    · exact absurd (hroot hkind hσ) hne
  · intro hkind
    rcases hscope with rfl | ⟨hne, hne'⟩
    · exact Iff.rfl
    · constructor
      · intro hσ
        exact absurd (hroot hkind hσ) hne
      · intro hσ'
        exact absurd (hroot hkind hσ') hne'

/-- The same along a chain: a combinator leads on in the same tree, or into a scope of its own. -/
theorem alikeAlong_of_sameScope (h : t.WellFormed) (hm : m.tree = t.view) {sub sub' : Nested}
    {steps : List (Combinator × CompoundId)} {c : CompoundId} {n : NodeId}
    (hsub : ∀ d ∈ c :: steps.map Prod.snd, ∀ s ∈ (m.arena.compound d).simples,
      ∀ l, s.nestedList? = some l → ∀ σ σ' x, t.SameScope σ σ' x →
        sub.list σ l x = sub'.list σ' l x ∧ sub.has σ l x = sub'.has σ' l x)
    (hscope : t.SameScope σ σ' n) :
    AlikeAlong m m.scope m.strict m.remembers (fun _ x y => x = y) sub sub' steps σ σ' c n := by
  have hcompound := m.parallel_eq.matchCompound
    (asks_of_sameScope h hm (hsub c List.mem_cons_self) hscope) (Or.inl rfl)
  induction steps generalizing σ σ' c n with
  | nil => exact hcompound
  | cons step more ih =>
      obtain ⟨q, d⟩ := step
      refine ⟨hcompound, fun left hleft => ?_⟩
      have hmore := fun e he => hsub e (List.mem_cons_of_mem c he)
      have hleftScope : t.SameScope (m.scopeAcross σ left q) (m.scopeAcross σ' left q) left := by
        rw [hm, h.mem_leftOf] at hleft
        cases q with
        | slot => exact Or.inl rfl
        | _ => exact hscope.congr (h.rootOf_of_joins (by simp) hleft)
      refine ih hmore hleftScope ?_
      exact m.parallel_eq.matchCompound
        (asks_of_sameScope h hm (hmore d List.mem_cons_self) hleftScope) (Or.inl rfl)

/-- A complex selector is matched the same if the lists that lie inside of its list are. -/
theorem matchComplex_congr (h : t.WellFormed) (hm : m.tree = t.view) (ha : m.arena.Sound)
    {sub sub' : Nested} {l : ListId} (hl : l.index < m.arena.listCount)
    (hsub : ∀ inner : ListId, inner.index < l.index → ∀ σ σ' x, t.SameScope σ σ' x →
      sub.list σ inner x = sub'.list σ' inner x ∧ sub.has σ inner x = sub'.has σ' inner x)
    {id : ComplexId} (hid : id ∈ (m.arena.list l).complexes)
    (anchor : Option (Combinator × NodeId)) {n : NodeId} (hscope : t.SameScope σ σ' n) :
    m.matchComplex sub anchor σ id n = m.matchComplex sub' anchor σ' id n := by
  refine m.parallel_eq.matchChain anchor (alikeAlong_of_sameScope h hm ?_ hscope)
  intro d hd s hs inner hinner
  have hd' := ComplexSelector.mem_of_mem_chain hd
  exact hsub inner (ha.smaller hl ⟨id, hid, d, hd', s, hs, hinner⟩)

/-- The elements below a node are the elements that stand below it. -/
theorem mem_elementsBelow (h : t.WellFormed) {n x : NodeId} :
    x ∈ t.view.elementsBelow n ↔ t.view.isElement x = true ∧ t.Below x n := by
  rw [TreeView.elementsBelow, h.view_descendants, List.mem_filter, h.mem_descendants, and_comm]

/-- A relative selector is searched for in the tree of the anchor. -/
theorem rootOf_of_candidate (h : t.WellFormed) (hm : m.tree = t.view) {c : ComplexSelector}
    {anchor x : NodeId} (hx : x ∈ m.candidates c anchor) : t.rootOf x = t.rootOf anchor := by
  have hbelow : ∀ {n}, x ∈ t.view.elementsBelow n → t.rootOf x = t.rootOf n := fun hx =>
    h.rootOf_of_below ((mem_elementsBelow h).mp hx).2
  have hbeside : ∀ {deep : Bool}, x ∈ ((t.followingSiblings anchor).filter t.view.isElement).flatMap
      (fun s => s :: if deep then t.view.elementsBelow s else []) →
        t.rootOf x = t.rootOf anchor := by
    intro deep hx
    obtain ⟨s, hs, hxs⟩ := List.mem_flatMap.mp hx
    have hroot := rootOf_of_sibling h (Or.inr (List.mem_filter.mp hs).1)
    rcases List.mem_cons.mp hxs with rfl | hxs
    · exact hroot
    · split at hxs
      · exact (hbelow hxs).trans hroot
      · exact absurd hxs List.not_mem_nil
  unfold candidates at hx
  rw [hm] at hx
  dsimp only at hx
  split at hx
  · exact hbelow hx
  · exact hbelow hx
  · exact hbelow hx
  · exact hbeside hx
  · exact hbeside hx

/-- **Neither the level nor the scope in other trees counts** for matching a list at a node. -/
theorem nested_congr (h : t.WellFormed) (hm : m.tree = t.view) (ha : m.arena.Sound)
    {depth depth' : Nat} {l : ListId} (hstored : l.index < m.arena.listCount)
    (hl : l.index < depth) (hl' : l.index < depth') {n : NodeId} (hscope : t.SameScope σ σ' n) :
    (m.nested depth).list σ l n = (m.nested depth').list σ' l n ∧
      (m.nested depth).has σ l n = (m.nested depth').has σ' l n := by
  induction depth generalizing depth' l σ σ' n with
  | zero => exact absurd hl (Nat.not_lt_zero _)
  | succ depth ih =>
      cases depth' with
      | zero => exact absurd hl' (Nat.not_lt_zero _)
      | succ depth' =>
          have hsub : ∀ inner : ListId, inner.index < l.index → ∀ σ σ' x, t.SameScope σ σ' x →
              (m.nested depth).list σ inner x = (m.nested depth').list σ' inner x ∧
                (m.nested depth).has σ inner x = (m.nested depth').has σ' inner x := by
            intro inner hlt σ σ' x hx
            exact ih (Nat.lt_trans hlt hstored) (Nat.lt_of_lt_of_le hlt (Nat.le_of_lt_succ hl))
              (Nat.lt_of_lt_of_le hlt (Nat.le_of_lt_succ hl')) hx
          constructor
          · refine m.parallel_eq.anyM fun c hc => ?_
            exact matchComplex_congr h hm ha hstored hsub hc none hscope
          · refine congrArg (m.answerOnce (n, l)) ?_
            refine m.parallel_eq.anyM fun c hc => m.parallel_eq.anyM fun x hx => ?_
            have hroot := rootOf_of_candidate h hm hx
            exact matchComplex_congr h hm ha hstored hsub hc _ (hscope.congr hroot)

/-- The members of a list are matched as at the level of the whole selector. -/
theorem exists_inside (h : t.WellFormed) (hm : m.tree = t.view) (ha : m.arena.Sound)
    {l : ListId} (hl : l.index < m.arena.listCount) :
    ∃ depth, m.inside = m.nested (depth + 1) ∧ ∀ id ∈ (m.arena.list l).complexes,
      ∀ anchor σ x, m.matchComplex (m.nested depth) anchor σ id x =
        m.matchComplex m.inside anchor σ id x := by
  obtain ⟨depth, hdepth⟩ : ∃ depth, m.arena.listCount = depth + 1 :=
    ⟨m.arena.listCount - 1, by omega⟩
  refine ⟨depth, congrArg m.nested hdepth, fun id hid anchor σ x => ?_⟩
  refine matchComplex_congr h hm ha hl ?_ hid _ (Or.inl rfl)
  intro inner hlt σ σ' y hy
  have hinner : inner.index < depth := by omega
  exact nested_congr h hm ha (Nat.lt_trans hlt hl) hinner (Nat.lt_trans hlt hl) hy

/-- Some member of a list matches at the level of the whole selector. -/
theorem inside_list (h : t.WellFormed) (hm : m.tree = t.view) (ha : m.arena.Sound)
    {l : ListId} (hl : l.index < m.arena.listCount) (n : NodeId) :
    m.inside.list σ l n =
      (m.arena.list l).complexes.anyM fun id => m.matchComplex m.inside none σ id n := by
  obtain ⟨depth, hinside, hcomplex⟩ := exists_inside h hm ha hl
  rw [hinside]
  refine m.parallel_eq.anyM fun id hid => ?_
  rw [← hinside]
  exact hcomplex id hid none σ n

end Matcher

end Selectors

import Selectors.Proofs.Compiled.Alike
import Selectors.Proofs.Matching.Nesting

/-!
# Matching in an arena that grew

A list asks for lists that were stored before it and for nothing else.  So it is matched the same
after more was stored, whatever root is given to the arena, as long as the level is high enough; and
the texts of complex selectors do not count.

* `Matcher.inArena` is a matcher over another arena.
* `Matcher.matchComplex_of_lists` is the independence from other lists than those asked for.
* `Matcher.nested_inArena` is the result.
-/

namespace Selectors

namespace ComplexSelector

variable {c c' : ComplexSelector}

theorem leftward_of_wordless (h : c.wordless = c'.wordless) : c.leftward = c'.leftward := by
  change c.wordless.leftward = c'.wordless.leftward
  rw [h]

theorem subject_of_wordless (h : c.wordless = c'.wordless) : c.subject = c'.subject := by
  change c.wordless.subject = c'.wordless.subject
  rw [h]

theorem leading_of_wordless (h : c.wordless = c'.wordless) : c.leading = c'.leading := by
  change c.wordless.leading = c'.wordless.leading
  rw [h]

end ComplexSelector

namespace Matcher

/-- The matcher over another arena. -/
abbrev inArena (m : Matcher) (a : Arena) (root : ListId) : Matcher :=
  { m with arena := a, root }

variable {m : Matcher} {a : Arena} {sub sub' : Nested} {l root : ListId} {id : ComplexId}
  {d : CompoundId}

/-! ### What a list asks for -/

/-- A compound asks for the lists in its tests. -/
theorem asks_of_lists (hsub : ∀ s ∈ (m.arena.compound d).simples, ∀ l, s.nestedList? = some l →
      ∀ σ x, sub.list σ l x = sub'.list σ l x ∧ sub.has σ l x = sub'.has σ l x)
    (σ : ShadowScope) (n : NodeId) : Asks m (fun _ x y => x = y) sub sub' σ σ d n where
  list s hs _ _ l hl x _ := (hsub s hs l hl σ x).1
  has l hs := (hsub _ hs l rfl σ n).2
  host s hs _ l hl _ x _ _ _ _ := (hsub s hs l hl σ x).1
  isHost _ := Iff.rfl

/-- A compound asks for the lists in its tests only. -/
theorem matchCompound_of_lists
    (hsub : ∀ s ∈ (m.arena.compound d).simples, ∀ l, s.nestedList? = some l →
      ∀ σ x, sub.list σ l x = sub'.list σ l x ∧ sub.has σ l x = sub'.has σ l x)
    (σ : ShadowScope) (n : NodeId) : m.matchCompound sub σ d n = m.matchCompound sub' σ d n :=
  m.parallel_eq.matchCompound (asks_of_lists hsub σ n) (Or.inl rfl)

/-- A member of a list asks for lists that were stored before. -/
theorem matchComplex_of_lists (ha : m.arena.Sound)
    (hsub : ∀ inner : ListId, inner.index < l.index → ∀ σ x,
      sub.list σ inner x = sub'.list σ inner x ∧ sub.has σ inner x = sub'.has σ inner x)
    (hid : id ∈ (m.arena.list l).complexes) (anchor : Option (Combinator × NodeId))
    (σ : ShadowScope) (n : NodeId) :
    m.matchComplex sub anchor σ id n = m.matchComplex sub' anchor σ id n := by
  refine m.parallel_eq.matchChain anchor (alikeAlong_of_compounds fun d hd σ x => ?_)
  refine matchCompound_of_lists (fun s hs inner hinner => ?_) σ x
  have hd' := ComplexSelector.mem_of_mem_chain hd
  exact hsub inner (ha.smaller_of_nests ⟨id, hid, d, hd', s, hs, hinner⟩)

/-! ### More that is stored -/

/-- A compound is tested as it was if it is stored in both arenas. -/
theorem matchCompound_inArena (h : a.compound d = m.arena.compound d) (σ : ShadowScope)
    (n : NodeId) : (m.inArena a root).matchCompound sub σ d n = m.matchCompound sub σ d n := by
  unfold matchCompound
  rw [h]
  rfl

/-- A chain is matched in a larger arena as before, if its compounds are the same. -/
theorem matchChain_inArena {steps : List (Combinator × CompoundId)}
    (h : ∀ e ∈ d :: steps.map Prod.snd, a.compound e = m.arena.compound e)
    (anchor : Option (Combinator × NodeId)) (σ : ShadowScope) (n : NodeId) :
    (m.inArena a root).matchChain sub anchor steps σ d n = m.matchChain sub anchor steps σ d n := by
  induction steps generalizing σ d n with
  | nil =>
      unfold matchChain
      rw [matchCompound_inArena (h d List.mem_cons_self)]
  | cons step more ih =>
      obtain ⟨q, e⟩ := step
      have hmore := fun σ n => ih (d := e) (fun e' he' => h e' (List.mem_cons_of_mem d he')) σ n
      simp only [matchChain, matchCompound_inArena (h d List.mem_cons_self), hmore]
      rfl

variable (hgrows : m.arena.wordless.Grows a.wordless)

include hgrows

/-- A complex selector is the same in a larger arena, but for its text. -/
theorem wordless_complex_inArena (hid : id.index < m.arena.complexes.size) :
    (a.complex id).wordless = (m.arena.complex id).wordless := by
  rw [← Arena.wordless_complex, ← Arena.wordless_complex]
  exact hgrows.complex (by simpa [Arena.wordless] using hid)

/-- A complex selector is matched in a larger arena as before. -/
theorem matchComplex_inArena (ha : m.arena.Sound) (hid : id.index < m.arena.complexes.size)
    (anchor : Option (Combinator × NodeId)) (σ : ShadowScope) (n : NodeId) :
    (m.inArena a root).matchComplex sub anchor σ id n = m.matchComplex sub anchor σ id n := by
  have hcomplex := wordless_complex_inArena hgrows hid
  have hcompounds : ∀ e ∈ (m.arena.complex id).subject ::
      (m.arena.complex id).leftward.map Prod.snd, a.compound e = m.arena.compound e := by
    intro e he
    have hstored := (ha.complexes hid).compounds e (ComplexSelector.mem_of_mem_chain he)
    exact hgrows.compound hstored
  unfold matchComplex
  dsimp only
  rw [ComplexSelector.leftward_of_wordless hcomplex, ComplexSelector.subject_of_wordless hcomplex]
  exact matchChain_inArena hcompounds anchor σ n

/-- A relative selector is searched for in the same places. -/
theorem matchRelative_inArena (ha : m.arena.Sound)
    (hsub : ∀ inner : ListId, inner.index < l.index → ∀ σ x,
      sub.list σ inner x = sub'.list σ inner x ∧ sub.has σ inner x = sub'.has σ inner x)
    (hl : l.index < m.arena.listCount) (hid : id ∈ (m.arena.list l).complexes) (σ : ShadowScope)
    (anchor : NodeId) :
    (m.inArena a root).matchRelative sub σ anchor id = m.matchRelative sub' σ anchor id := by
  have hstored := ha.lists hl id hid
  have hcomplex := wordless_complex_inArena hgrows hstored
  have hcandidates : (m.inArena a root).candidates (a.complex id) anchor =
      m.candidates (m.arena.complex id) anchor := by
    change m.candidates (a.complex id).wordless anchor =
      m.candidates (m.arena.complex id).wordless anchor
    rw [hcomplex]
  unfold matchRelative
  dsimp only
  rw [hcandidates, ComplexSelector.leading_of_wordless hcomplex]
  refine m.parallel_eq.anyM fun x _ => ?_
  rw [matchComplex_inArena hgrows ha hstored]
  exact matchComplex_of_lists ha hsub hid _ σ x

/-- **Lists stored before are matched as they were**, at every level that is high enough. -/
theorem nested_inArena (ha : m.arena.Sound) (root : ListId) {depth depth' : Nat}
    (hstored : l.index < m.arena.listCount) (hl : l.index < depth) (hl' : l.index < depth')
    (σ : ShadowScope) (n : NodeId) :
    ((m.inArena a root).nested depth).list σ l n = (m.nested depth').list σ l n ∧
      ((m.inArena a root).nested depth).has σ l n = (m.nested depth').has σ l n := by
  induction depth generalizing depth' l σ n with
  | zero => exact absurd hl (Nat.not_lt_zero _)
  | succ depth ih =>
      cases depth' with
      | zero => exact absurd hl' (Nat.not_lt_zero _)
      | succ depth' =>
          have hlist : a.list l = m.arena.list l := hgrows.list hstored
          have hsub : ∀ inner : ListId, inner.index < l.index → ∀ σ x,
              ((m.inArena a root).nested depth).list σ inner x = (m.nested depth').list σ inner x ∧
                ((m.inArena a root).nested depth).has σ inner x =
                  (m.nested depth').has σ inner x := by
            intro inner hlt σ x
            exact ih (Nat.lt_trans hlt hstored) (Nat.lt_of_lt_of_le hlt (Nat.le_of_lt_succ hl))
              (Nat.lt_of_lt_of_le hlt (Nat.le_of_lt_succ hl')) σ x
          constructor
          · simp only [nested, hlist]
            refine m.parallel_eq.anyM fun id hid => ?_
            rw [matchComplex_inArena hgrows ha (ha.lists hstored id hid)]
            exact matchComplex_of_lists ha hsub hid none σ n
          · simp only [nested, hlist]
            refine congrArg (m.answerOnce (n, l)) ?_
            refine m.parallel_eq.anyM fun id hid => ?_
            exact matchRelative_inArena hgrows ha hsub hstored hid σ n

end Matcher

end Selectors

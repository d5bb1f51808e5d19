import Mathlib.Data.List.Nodup
import Selectors.Proofs.Compiled.Compiling
import Selectors.Proofs.Compiled.Related
import Selectors.Proofs.Matching.Nesting

/-!
# `:has()` is never asked while it is answered

A list that records no `:has()` is matched without asking for one, so it is matched the same
whatever one would answer: that no element matches, that all do, or a failure.  The arguments of
`:has()` are such lists, so that while a question is answered no other one is asked.

* `Matcher.judged` matches lists where a judge answers for `:has()`.
* `Matcher.NeverReenters` says that no judge is heard while `:has()` is answered.
* `compile_recordsHas` joins this with what a compiled arena records.
-/

namespace Selectors

namespace Matcher

variable {m : Matcher} {sub sub' : Nested}

/-- How lists are matched where a judge answers for `:has()`. -/
def judged (m : Matcher) (judge : ShadowScope → ListId → NodeId → Matching Bool) : Nat → Nested
  | 0 => { list := fun _ _ _ => return false, has := judge }
  | depth + 1 =>
    let sub := m.judged judge depth
    { list := fun shadow l n =>
        (m.arena.list l).complexes.anyM fun c => m.matchComplex sub none shadow c n
      has := judge }

/-- Lists that record no `:has()` are matched the same. -/
def FreeAlike (m : Matcher) (sub sub' : Nested) : Prop :=
  ∀ l : ListId, l.index < m.arena.lists.size → (m.arena.list l).containsHas = false →
    ∀ σ n, sub.list σ l n = sub'.list σ l n

/-- A compound that records no `:has()` asks for lists that record none. -/
theorem asks_of_freeAlike (ha : m.arena.Sound) (hsub : m.FreeAlike sub sub') {d : CompoundId}
    (hd : d.index < m.arena.compounds.size) (hfree : (m.arena.compound d).containsHas = false)
    (σ : ShadowScope) (n : NodeId) : Asks m (fun _ x y => x = y) sub sub' σ σ d n := by
  have hsound := ha.compounds hd
  have hbears : ∀ s ∈ (m.arena.compound d).simples, ¬m.arena.bearsHas s = true := by
    rw [hsound.containsHas, List.any_eq_false] at hfree
    exact hfree
  have hlist : ∀ s ∈ (m.arena.compound d).simples, ∀ l, s.nestedList? = some l →
      ∀ x, sub.list σ l x = sub'.list σ l x := by
    intro s hs l hl x
    refine hsub l (hsound.lists s hs l hl).1 (Bool.eq_false_iff.mpr fun hrecord => ?_) σ x
    exact hbears s hs (Arena.bearsHas_iff.mpr (Or.inr ⟨l, hl, hrecord⟩))
  constructor
  · exact fun s hs _ _ l hl x _ => hlist s hs l hl x
  · exact fun l hs => absurd rfl (hbears _ hs)
  · exact fun s hs _ l hl _ x _ _ _ _ => hlist s hs l hl x
  · exact fun _ => Iff.rfl

/-- A complex selector without a `:has()` does not ask for one. -/
theorem matchComplex_of_freeAlike (ha : m.arena.Sound) (hsub : m.FreeAlike sub sub')
    {c : ComplexId} (hc : c.index < m.arena.complexes.size)
    (hfree : m.arena.complexBearsHas c = false) (anchor : Option (Combinator × NodeId))
    (σ : ShadowScope) (n : NodeId) :
    m.matchComplex sub anchor σ c n = m.matchComplex sub' anchor σ c n := by
  refine m.parallel_eq.matchChain anchor (alikeAlong_of_compounds fun d hd σ x => ?_)
  have hd' := ComplexSelector.mem_of_mem_chain hd
  have hnone : (m.arena.compound d).containsHas = false :=
    Bool.eq_false_iff.mpr (List.any_eq_false.mp hfree d hd')
  have hask := asks_of_freeAlike ha hsub ((ha.complexes hc).compounds d hd') hnone σ x
  exact m.parallel_eq.matchCompound hask (Or.inl rfl)

/-- The members of a list that records no `:has()` are stored and record none. -/
theorem member_of_free (ha : m.arena.Sound) {l : ListId} (hl : l.index < m.arena.lists.size)
    (hfree : (m.arena.list l).containsHas = false) {c : ComplexId}
    (hc : c ∈ (m.arena.list l).complexes) :
    c.index < m.arena.complexes.size ∧ m.arena.complexBearsHas c = false := by
  rw [ha.containsHas hl] at hfree
  exact ⟨ha.lists hl c hc, Bool.eq_false_iff.mpr (List.any_eq_false.mp hfree c hc)⟩

/-- **The judge is not heard** in lists that record no `:has()`, at any level. -/
theorem freeAlike_judged (ha : m.arena.Sound)
    (judge : ShadowScope → ListId → NodeId → Matching Bool) (depth : Nat) :
    m.FreeAlike (m.nested depth) (m.judged judge depth) := by
  induction depth with
  | zero => exact fun _ _ _ _ _ => rfl
  | succ depth ih =>
      intro l hl hfree σ n
      refine m.parallel_eq.anyM fun c hc => ?_
      obtain ⟨hstored, hnone⟩ := member_of_free ha hl hfree hc
      exact matchComplex_of_freeAlike ha ih hstored hnone none σ n

/-- **While `:has()` is answered none is asked**: at every level and whatever is around, the members
of its argument are searched as if any judge answered for those inside. -/
def NeverReenters (m : Matcher) : Prop :=
  ∀ outer l, m.arena.NestsAs .relative outer l → ∀ judge depth σ anchor,
    (m.nested (depth + 1)).has σ l anchor =
      m.answerOnce (anchor, l)
        ((m.arena.list l).complexes.anyM (m.matchRelative (m.judged judge depth) σ anchor))

/-- **A `:has()` is never asked inside of itself.** -/
theorem neverReenters (ha : m.arena.Sound) : m.NeverReenters := by
  intro outer l hnests judge depth σ anchor
  obtain ⟨hl, hfree⟩ := ha.hasFree hnests
  have hmembers :
      (m.arena.list l).complexes.anyM (m.matchRelative (m.nested depth) σ anchor) =
        (m.arena.list l).complexes.anyM (m.matchRelative (m.judged judge depth) σ anchor) := by
    refine m.parallel_eq.anyM fun c hc => m.parallel_eq.anyM fun x _ => ?_
    obtain ⟨hstored, hnone⟩ := member_of_free ha hl hfree hc
    exact matchComplex_of_freeAlike ha (freeAlike_judged ha judge depth) hstored hnone _ σ x
  exact congrArg (m.answerOnce (anchor, l)) hmembers

end Matcher

/-- **What a compiled arena records about `:has()` is exact**: the records of all that is reached
from the root, the one of the whole selector, which sums up its compounds and says whether `:has()`
occurs anywhere, and over no tree is one asked while another is answered. -/
theorem compile_recordsHas {text : String} {s : CompiledSelector} (hs : compile text = .ok s) :
    s.arena.RecordsHas s.root ∧
      (s.containsHas = true ↔ ∃ c ∈ (s.arena.list s.root).complexes,
        ∃ d ∈ (s.arena.complex c).compounds, (s.arena.compound d).containsHas = true) ∧
      (s.containsHas = true ↔ ∃ l, s.arena.Reaches s.root l ∧ s.arena.HoldsHas l) ∧
      ∀ m : Matcher, ({ m with arena := s.arena, root := s.root } : Matcher).NeverReenters := by
  obtain ⟨F, hF, hroot, -, -⟩ := compile_builds hs
  have hrecords := hF.toSound.recordsHas hroot
  exact ⟨hrecords, hrecords.lists .refl, hF.toSound.containsHas_iff hroot,
    fun m => Matcher.neverReenters hF.toSound⟩

/-- Where a member that asks too deep was dropped. -/
theorem compile_recordsHas_dropped :
    ∃ s, compile ":is(:has(> :is(:has(p), b))) i" = .ok s ∧ s.containsHas = true ∧
      (s.arena.list ⟨0⟩).complexes.length = 1 ∧ s.arena.RecordsHas s.root ∧
      (s.containsHas = true ↔ ∃ c ∈ (s.arena.list s.root).complexes,
        ∃ d ∈ (s.arena.complex c).compounds, (s.arena.compound d).containsHas = true) ∧
      (s.containsHas = true ↔ ∃ l, s.arena.Reaches s.root l ∧ s.arena.HoldsHas l) ∧
      ∀ m : Matcher, ({ m with arena := s.arena, root := s.root } : Matcher).NeverReenters := by
  let s := (compile ":is(:has(> :is(:has(p), b))) i").toOption.get (by decide +kernel)
  have hs : compile ":is(:has(> :is(:has(p), b))) i" = .ok s := by
    decide +kernel
  exact ⟨s, hs, by decide +kernel, by decide +kernel, compile_recordsHas hs⟩

end Selectors

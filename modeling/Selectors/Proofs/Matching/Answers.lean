import Selectors.Proofs.Matching.Memory

/-!
# Answers that do not fail

A lenient matcher whose selector names no prefix never fails, and from every memory that is right it
gives the same answer.  So a computation can be said to test a statement, and the ways of putting
computations together are ways of putting statements together.

* `Matcher.Infallible` collects what is needed for that.
* `Matcher.Yields` and `Matcher.Tests` are the two judgements, and the rules follow.
* `Matcher.Passes` says that a node passes a compound, asked anew, and
  `Matcher.Infallible.tests_compound` is the rule for it.
* `Matcher.Used` are the memories that calls leave.
-/

namespace Selectors

namespace Matcher

/-- A lenient matcher over a tree, with a description of its arena, that has no prefix to fail
on. -/
structure Infallible (t : Tree) (m : Matcher) (F : Routes) : Prop where
  tree : t.WellFormed
  view : m.tree = t.view
  described : F.Describes m.arena
  lenient : m.strict = false
  plain : ¬m.arena.NamesPrefix

/-- From every right memory the computation gives the value, and it keeps the memory right. -/
def Yields (t : Tree) (m : Matcher) (f : Frame) (k : Nat) {α : Type} (x : Matching α) (a : α) :
    Prop :=
  ∀ s, Recalls t m f k s → ∃ s', runFrom x s = (.ok a, s') ∧ Recalls t m f k s'

/-- From every right memory the computation tells whether the statement holds. -/
def Tests (t : Tree) (m : Matcher) (f : Frame) (k : Nat) (x : Matching Bool) (P : Prop) : Prop :=
  ∃ b, Yields t m f k x b ∧ (b = true ↔ P)

/-- Whether a node passes a compound in a shadow scope, asked anew. -/
def Passes (m : Matcher) (σ : ShadowScope) (c : CompoundId) (n : NodeId) : Prop :=
  (runFrom (m.matchCompound m.inside σ c n) {}).1 = .ok true

variable {t : Tree} {m : Matcher} {f : Frame} {k : Nat} {α β : Type}

/-! ### Rules -/

namespace Yields

theorem pure (a : α) : Yields t m f k (Pure.pure a) a :=
  fun s hs => ⟨s, rfl, hs⟩

/-- Two steps yield what the second yields. -/
theorem bind {x : Matching α} {g : α → Matching β} {a : α} {b : β} (hx : Yields t m f k x a)
    (hg : Yields t m f k (g a) b) : Yields t m f k (x >>= g) b := by
  intro s hs
  obtain ⟨s₁, hrun, hs₁⟩ := hx s hs
  obtain ⟨s₂, hrun', hs₂⟩ := hg s₁ hs₁
  exact ⟨s₂, (runFrom_bind_ok hrun).trans hrun', hs₂⟩

/-- Lists that are found one after another are found together. -/
theorem flatMapM {g : α → Matching (List β)} {found : α → List β} {xs : List α}
    (h : ∀ x ∈ xs, Yields t m f k (g x) (found x)) :
    Yields t m f k (xs.flatMapM g) (xs.flatMap found) := by
  induction xs with
  | nil => exact pure []
  | cons x xs ih =>
      rw [List.flatMapM_cons, List.flatMap_cons]
      have hrest := ih fun y hy => h y (List.mem_cons_of_mem x hy)
      exact (h x List.mem_cons_self).bind (hrest.bind (pure _))

end Yields

namespace Tests

variable {x : Matching Bool} {P Q : Prop}

theorem pure (b : Bool) : Tests t m f k (Pure.pure b) (b = true) :=
  ⟨b, Yields.pure b, Iff.rfl⟩

/-- A test of a statement tests each equivalent one. -/
theorem congr (h : Tests t m f k x P) (hPQ : P ↔ Q) : Tests t m f k x Q := by
  obtain ⟨b, hb, hP⟩ := h
  exact ⟨b, hb, hP.trans hPQ⟩

/-- The second test is made only where the first one holds. -/
theorem and {y : Matching Bool} (hx : Tests t m f k x P) (hy : Tests t m f k y Q) :
    Tests t m f k
      (do
        if !(← x) then
          return false
        y)
      (P ∧ Q) := by
  obtain ⟨b, hb, hP⟩ := hx
  cases b with
  | false =>
      refine ⟨false, hb.bind (Yields.pure false), ?_⟩
      simp [← hP]
  | true =>
      obtain ⟨b', hb', hQ⟩ := hy
      refine ⟨b', hb.bind hb', ?_⟩
      simp [← hP, hQ]

/-- A row of tests asks whether one of them passes. -/
theorem anyM {g : α → Matching Bool} {P : α → Prop} {xs : List α}
    (h : ∀ x ∈ xs, Tests t m f k (g x) (P x)) :
    Tests t m f k (xs.anyM g) (∃ x ∈ xs, P x) := by
  induction xs with
  | nil => exact ⟨false, Yields.pure false, by simp⟩
  | cons x xs ih =>
      obtain ⟨b, hb, hP⟩ := h x List.mem_cons_self
      cases b with
      | true =>
          refine ⟨true, hb.bind (Yields.pure true), ?_⟩
          simp [← hP]
      | false =>
          obtain ⟨b', hb', hrest⟩ := ih fun y hy => h y (List.mem_cons_of_mem x hy)
          refine ⟨b', hb.bind hb', ?_⟩
          simp [← hP, hrest]

/-- Filtering finds what passes, in the order in which it was given. -/
theorem yields_filterM {g : α → Matching Bool} {P : α → Prop} [DecidablePred P] {xs : List α}
    (h : ∀ x ∈ xs, Tests t m f k (g x) (P x)) :
    Yields t m f k (xs.filterM g) (xs.filter fun x => P x) := by
  induction xs with
  | nil => exact Yields.pure []
  | cons x xs ih =>
      obtain ⟨b, hb, hP⟩ := h x List.mem_cons_self
      have hrest := ih fun y hy => h y (List.mem_cons_of_mem x hy)
      rw [filterM_cons, List.filter_cons]
      refine hb.bind (hrest.bind ?_)
      cases b with
      | true =>
          rw [if_pos (decide_eq_true (hP.mp rfl))]
          exact Yields.pure _
      | false =>
          have hnot : ¬P x := fun hx => Bool.false_ne_true (hP.mpr hx)
          rw [if_neg (by simp [hnot])]
          exact Yields.pure _

/-- A filter keeps the elements that pass. -/
theorem filterM {g : α → Matching Bool} {P : α → Prop} {xs : List α}
    (h : ∀ x ∈ xs, Tests t m f k (g x) (P x)) :
    ∃ ys, Yields t m f k (xs.filterM g) ys ∧ ∀ y, y ∈ ys ↔ y ∈ xs ∧ P y := by
  classical
  exact ⟨_, yields_filterM h, fun y => by simp⟩

end Tests

/-! ### Compounds and lists -/

namespace Infallible

variable {x y : Matching α} {σ : ShadowScope} {l : ListId} {id : ComplexId} {d : CompoundId}
  {n : NodeId}

/-- What is matched with a memory as without one, and does not fail, gives one value. -/
theorem yields (H : Infallible t m f.routes) (h : Agrees t m f k x y) :
    ∃ a, Yields t m f k x a := by
  obtain ⟨r, ws, hr, -, hx⟩ := h
  cases r with
  | error e =>
      rcases hr e rfl with hstrict | hprefix
      · rw [H.lenient] at hstrict
        cases hstrict
      · exact absurd hprefix H.plain
  | ok a =>
      refine ⟨a, fun s hs => ?_⟩
      obtain ⟨s', hrun, -, -, hs'⟩ := hx s hs
      exact ⟨s', hrun, hs'⟩

/-- What agrees tests whether it says yes from an empty memory. -/
theorem tests_new (H : Infallible t m f.routes) {x y : Matching Bool} (h : Agrees t m f k x y) :
    Tests t m f k x ((runFrom x {}).1 = .ok true) := by
  obtain ⟨b, hb⟩ := H.yields h
  obtain ⟨s', hrun, -⟩ := hb {} (recalls_new t m f k)
  refine ⟨b, hb, ?_⟩
  rw [hrun]
  simp

/-- **A compound is tested**: whether a node passes it does not depend on what is remembered. -/
theorem tests_compound (H : Infallible t m f.routes) (hl : l.index < m.arena.listCount)
    (hk : l.index ≤ k) (hid : id ∈ (m.arena.list l).complexes)
    (hd : d ∈ (m.arena.complex id).compounds) (hσ : f.Fits t (f.routes.compound d) σ n) :
    Tests t m f k (m.matchCompound m.inside σ d n) (m.Passes σ d n) :=
  H.tests_new (compound_agrees H.tree H.view H.described hl hk hid hd hσ)

/-- Without a memory a compound settles on what passing it means.  An empty memory is right for
every frame, so the compound may be asked in any scope. -/
theorem settles_compound {F : Routes} (H : Infallible t m F) (hl : l.index < m.arena.listCount)
    (hid : id ∈ (m.arena.list l).complexes) (hd : d ∈ (m.arena.complex id).compounds)
    (σ : ShadowScope) (n : NodeId) :
    ∃ b ws, Settles (m.forgetful.matchCompound m.forgetful.inside σ d n) (.ok b) ws ∧
      (b = true ↔ m.Passes σ d n) := by
  let f : Frame := { routes := F, base := F.compound d, given := σ }
  have hσ : f.Fits t (F.compound d) σ n := ⟨[], rfl, rfl⟩
  obtain ⟨r, ws, hr, hsettles, hx⟩ :=
    compound_agrees (f := f) H.tree H.view H.described hl (Nat.le_refl _) hid hd hσ
  obtain ⟨s', hrun, -⟩ := hx {} (recalls_new t m f l.index)
  cases r with
  | error e =>
      rcases hr e rfl with hstrict | hprefix
      · rw [H.lenient] at hstrict
        cases hstrict
      · exact absurd hprefix H.plain
  | ok b =>
      refine ⟨b, ws, hsettles, ?_⟩
      unfold Passes
      rw [hrun]
      simp

end Infallible

/-! ### What calls leave -/

/-- The memory after some calls for members of a list, and for `:has()` with the list itself. -/
inductive Used (m : Matcher) (l : ListId) : MatchMemory → Prop
  | new : Used m l {}
  | member {s : MatchMemory} (used : Used m l s) {id : ComplexId}
      (hid : id ∈ (m.arena.list l).complexes) (n : NodeId) :
      Used m l (runFrom (m.matchesComplex id n) s).2
  | has {s : MatchMemory} (used : Used m l s) (n : NodeId) :
      Used m l (runFrom (m.inside.has m.shadow l n) s).2

/-- What agrees leaves a memory that is right. -/
theorem Agrees.recalls {x y : Matching α} {s : MatchMemory} (h : Agrees t m f k x y)
    (hs : Recalls t m f k s) : Recalls t m f k (runFrom x s).2 := by
  obtain ⟨r, ws, -, -, hx⟩ := h
  obtain ⟨s', hrun, -, -, hs'⟩ := hx s hs
  rw [hrun]
  exact hs'

/-- **Calls leave right memories.** -/
theorem Used.recalls {F : Routes} (H : Infallible t m F) {l : ListId}
    (hl : l.index < m.arena.listCount) {s : MatchMemory} (hs : Used m l s) :
    Recalls t m (m.callFrame F l) m.arena.listCount s := by
  induction hs with
  | new => exact recalls_new t m _ _
  | member _ hid n ih =>
      exact Agrees.recalls (matchesComplex_agrees H.tree H.view H.described hl hid n) ih
  | has _ n ih =>
      have hboth := nested_agrees (f := m.callFrame F l) H.tree H.view H.described hl hl hl
        (fits_callFrame t m F l n)
      exact Agrees.recalls hboth.2 ih

end Matcher

end Selectors

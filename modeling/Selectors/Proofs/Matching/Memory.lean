import Selectors.Proofs.Control.Reading
import Selectors.Proofs.Matching.Nesting

/-!
# What a matcher remembers

A matcher keeps what `:has()` answered, under the node and the list alone, although an answer
depends on the shadow scope too.  It may do so since a list stands in one place of the selector, and
the way to that place tells which scopes it is asked in: the one that was given, below a slot that
of the node's own tree, and in the argument of `:host()` one that is not in the node's tree.  In
each case any two such scopes give the same answer.

* `Frame.Fits` says which scopes go with a way.
* `Settles` is a computation that gives the same from every memory, up to what it tells.
* `Recalls` is the invariant of the memory: every answer in it is what matching without a memory
  gives, and every pattern what its text describes.
* `Agrees` compares matching with and without a memory, and `nested_agrees` is the result for lists.
-/

namespace Selectors

/-! ### Telling -/

namespace MatchMemory

/-- Warnings with one more, if it is new. -/
def addOnce (kept : List Warning) (w : Warning) : List Warning :=
  if kept.contains w then kept else kept ++ [w]

/-- The memory after some warnings, each told once. -/
def tell (s : MatchMemory) (ws : List Warning) : MatchMemory :=
  { s with warnings := ws.foldl addOnce s.warnings }

@[simp] theorem tell_nil (s : MatchMemory) : s.tell [] = s := rfl

theorem tell_append (s : MatchMemory) (ws ws' : List Warning) :
    s.tell (ws ++ ws') = (s.tell ws).tell ws' := by
  simp [tell]

theorem tell_one (s : MatchMemory) (w : Warning) :
    s.tell [w] = if s.warnings.contains w then s
      else { s with warnings := s.warnings ++ [w] } := by
  change { s with warnings := if s.warnings.contains w then _ else _ } = _
  split <;> rfl

/-- What is told is among the warnings afterwards, with what was told before. -/
theorem mem_tell {s : MatchMemory} {ws : List Warning} {w : Warning} :
    w ∈ (s.tell ws).warnings ↔ w ∈ s.warnings ∨ w ∈ ws := by
  induction ws generalizing s with
  | nil => simp
  | cons w' ws ih =>
      change w ∈ ((s.tell [w']).tell ws).warnings ↔ _
      rw [ih, List.mem_cons, ← or_assoc]
      refine or_congr_left ?_
      change w ∈ (if s.warnings.contains w' then s.warnings else s.warnings ++ [w']) ↔ _
      split
      · rename_i hknown
        rw [List.contains_iff_mem] at hknown
        constructor
        · exact Or.inl
        · rintro (hw | rfl)
          · exact hw
          · exact hknown
      · rw [List.mem_append, List.mem_singleton]

/-- Telling what was told changes nothing. -/
theorem tell_of_subset {s : MatchMemory} {ws : List Warning} (h : ∀ w ∈ ws, w ∈ s.warnings) :
    s.tell ws = s := by
  induction ws with
  | nil => rfl
  | cons w ws ih =>
      change (s.tell [w]).tell ws = s
      have hw : s.tell [w] = s := by
        have hknown : s.warnings.contains w = true := by
          rw [List.contains_iff_mem]
          exact h w List.mem_cons_self
        unfold tell
        simp only [List.foldl_cons, List.foldl_nil, addOnce, hknown, if_true]
      rw [hw]
      exact ih fun v hv => h v (List.mem_cons_of_mem w hv)

/-- Which warnings are told does not depend on what else is remembered. -/
theorem tell_congr {s s' : MatchMemory} (h : s.warnings = s'.warnings) (ws : List Warning) :
    (s.tell ws).warnings = (s'.tell ws).warnings := by
  unfold tell
  rw [h]

end MatchMemory

/-- The computation gives the result and tells the warnings, whatever is remembered. -/
def Settles {α : Type} (y : Matching α) (r : Except SelectorError α) (ws : List Warning) : Prop :=
  ∀ s, runFrom y s = (r, s.tell ws)

/-! ### Scopes and ways -/

/-- The ways of the parts of an arena, and the scope that is given on one of them. -/
structure Frame where
  routes : Routes
  base : Route
  given : ShadowScope

/-- A scope that a part on the way `r` can be asked in at a node.  What was passed last since the
given scope decides. -/
def Frame.Fits (f : Frame) (t : Tree) (r : Route) (σ : ShadowScope) (n : NodeId) : Prop :=
  ∃ way, r = way ++ f.base ∧
    match way with
    | [] => σ = f.given
    | .slot :: _ => σ = t.view.shadowScope n
    | .host :: _ => σ ≠ some (t.rootOf n)

namespace Frame

variable {f : Frame} {t : Tree} {r : Route} {σ σ' : ShadowScope} {n x : NodeId}

/-- Nodes of one tree have the same scope of their own. -/
theorem shadowScope_congr (hroot : t.rootOf x = t.rootOf n) :
    t.view.shadowScope x = t.view.shadowScope n := by
  change (if t.view.kind (t.rootOf x) = .shadowRoot then some (t.rootOf x) else none) =
    if t.view.kind (t.rootOf n) = .shadowRoot then some (t.rootOf n) else none
  rw [hroot]

/-- Only the node's tree counts. -/
theorem Fits.congr (h : f.Fits t r σ n) (hroot : t.rootOf x = t.rootOf n) : f.Fits t r σ x := by
  obtain ⟨way, hway, hσ⟩ := h
  refine ⟨way, hway, ?_⟩
  rw [hroot, shadowScope_congr hroot]
  exact hσ

/-- **Two scopes that fit one way** differ in other trees at most. -/
theorem Fits.sameScope (h : f.Fits t r σ n) (h' : f.Fits t r σ' n) : t.SameScope σ σ' n := by
  obtain ⟨way, rfl, hσ⟩ := h
  obtain ⟨way', hway, hσ'⟩ := h'
  rw [List.append_cancel_right_eq] at hway
  subst hway
  cases way with
  | nil => exact Or.inl (hσ.trans hσ'.symm)
  | cons crossing way =>
      cases crossing with
      | slot => exact Or.inl (hσ.trans hσ'.symm)
      | host => exact Or.inr ⟨hσ, hσ'⟩

/-- Left of a slot the scope is the node's own. -/
theorem Fits.slot (h : f.Fits t r σ n) (left : NodeId) :
    f.Fits t (.slot :: r) (t.view.shadowScope left) left := by
  obtain ⟨way, rfl, -⟩ := h
  exact ⟨.slot :: way, rfl, rfl⟩

/-- A node that is not in the scope may be asked in the argument of `:host()`. -/
theorem Fits.host (h : f.Fits t r σ n) (hx : σ ≠ some (t.rootOf x)) :
    f.Fits t (.host :: r) σ x := by
  obtain ⟨way, rfl, -⟩ := h
  exact ⟨.host :: way, rfl, hx⟩

/-- Across a combinator the scope goes with the way. -/
theorem Fits.across (h : t.WellFormed) {m : Matcher} (hm : m.tree = t.view)
    (hσ : f.Fits t r σ n) {q : Combinator} {left : NodeId} (hjoins : t.Joins q left n) :
    f.Fits t (r.across q) (m.scopeAcross σ left q) left := by
  cases q with
  | slot =>
      unfold Matcher.scopeAcross
      rw [hm]
      exact hσ.slot left
  | _ => exact hσ.congr (h.rootOf_of_joins (by simp) hjoins)

end Frame

/-! ### Settled computations -/

namespace Settles

variable {α β : Type} {y : Matching α} {g : α → Matching β}

theorem pure (a : α) : Settles (Pure.pure a) (.ok a) [] :=
  fun _ => rfl

theorem throw (e : SelectorError) : Settles (throw e : Matching α) (.error e) [] :=
  fun _ => rfl

/-- Two settled steps tell what each of them tells. -/
theorem bind {a : α} {r : Except SelectorError β} {ws ws' : List Warning}
    (hy : Settles y (.ok a) ws) (hg : Settles (g a) r ws') : Settles (y >>= g) r (ws ++ ws') := by
  intro s
  rw [runFrom_bind_ok (hy s), hg, MatchMemory.tell_append]

/-- A settled failure settles a row of two. -/
theorem bind_error {e : SelectorError} {ws : List Warning} (hy : Settles y (.error e) ws) :
    Settles (y >>= g) (.error e) ws :=
  fun s => runFrom_bind_error (hy s)

/-- What a computation settles on is unique. -/
theorem unique {r r' : Except SelectorError α} {ws ws' : List Warning} (h : Settles y r ws)
    (h' : Settles y r' ws') : r = r' ∧ ∀ s : MatchMemory, s.tell ws = s.tell ws' := by
  have hpair := fun s => (h s).symm.trans (h' s)
  exact ⟨congrArg Prod.fst (hpair {}), fun s => congrArg Prod.snd (hpair s)⟩

end Settles

namespace Matcher

/-! ### The invariant of the memory -/

/-- The matcher that remembers nothing. -/
abbrev forgetful (m : Matcher) : Matcher :=
  m.tuned m.scope m.strict false

/-- **Every answer in the memory is right** in every scope that fits, with all its warnings told,
what is being asked are lists from the place `k` on, and every pattern is that of its text. -/
structure Recalls (t : Tree) (m : Matcher) (f : Frame) (k : Nat) (s : MatchMemory) : Prop where
  answers : ∀ {n l b}, ((n, l), b) ∈ s.answers → ∀ σ, f.Fits t (f.routes.list l) σ n →
    ∃ ws, (∀ w ∈ ws, w ∈ s.warnings) ∧
      Settles ((m.forgetful.nested (l.index + 1)).has σ l n) (.ok b) ws
  asking : ∀ q ∈ s.asking, k ≤ q.2.index
  patterns : ∀ {text p}, (text, p) ∈ s.patterns → p = m.readers.filling? text

/-- Matching without a memory settles, fails only where a strict call or a prefix may make it fail,
and matching with a memory gives the same and keeps the memory right. -/
def Agrees (t : Tree) (m : Matcher) (f : Frame) (k : Nat) {α : Type} (x y : Matching α) : Prop :=
  ∃ r ws, (∀ e, r = .error e → m.strict = true ∨ m.arena.NamesPrefix) ∧ Settles y r ws ∧
    ∀ s, Recalls t m f k s → ∃ s', runFrom x s = (r, s') ∧
      s'.warnings = (s.tell ws).warnings ∧ s'.asking = s.asking ∧ Recalls t m f k s'

variable {t : Tree} {m : Matcher} {f : Frame} {k : Nat} {s : MatchMemory}

/-- A new memory recalls nothing, which is right. -/
theorem recalls_new (t : Tree) (m : Matcher) (f : Frame) (k : Nat) : Recalls t m f k {} where
  answers h := absurd h List.not_mem_nil
  asking _ h := absurd h List.not_mem_nil
  patterns h := absurd h List.not_mem_nil

/-- The invariant looks at answers and patterns, at what is asked, and at whether enough was
told. -/
theorem Recalls.of_same (h : Recalls t m f k s) {k' : Nat} {s' : MatchMemory}
    (hanswers : s'.answers = s.answers) (hpatterns : s'.patterns = s.patterns)
    (hwarnings : ∀ w ∈ s.warnings, w ∈ s'.warnings)
    (hasking : ∀ q ∈ s'.asking, k' ≤ q.2.index) : Recalls t m f k' s' where
  answers {n l b} hmem σ hσ := by
    rw [hanswers] at hmem
    obtain ⟨ws, hws, hsettles⟩ := h.answers hmem σ hσ
    exact ⟨ws, fun w hw => hwarnings w (hws w hw), hsettles⟩
  asking := hasking
  patterns hmem := h.patterns (hpatterns ▸ hmem)

/-- Where it is no failure, what is not evaluated is told, and it has no match. -/
theorem settles_unsupported (hlenient : m.strict = false) (e : SelectorError) :
    Settles (m.unsupported e) (.ok false) [{ component := "Selector", message := e.message }] := by
  intro s
  unfold unsupported
  rw [hlenient, MatchMemory.tell_one]
  rfl

/-! ### Reading patterns -/

theorem mem_of_lookup {α β : Type} [BEq α] [LawfulBEq α] {row : List (α × β)} {a : α} {b : β}
    (h : row.lookup a = some b) : (a, b) ∈ row := by
  induction row with
  | nil => cases h
  | cons entry row ih =>
      obtain ⟨a', b'⟩ := entry
      rw [List.lookup_cons] at h
      by_cases heq : a = a'
      · subst heq
        rw [beq_self_eq_true] at h
        cases h
        exact List.mem_cons_self
      · rw [beq_eq_false_iff_ne.mpr heq] at h
        exact List.mem_cons_of_mem _ (ih h)

/-- From every right memory the computation gives the value without a word, and it keeps the memory
right. -/
def YieldsQuietly (t : Tree) (m : Matcher) (f : Frame) (k : Nat) (α : Type) (x : Matching α)
    (a : α) : Prop :=
  ∀ s, Recalls t m f k s → ∃ s', runFrom x s = (.ok a, s') ∧ s'.warnings = s.warnings ∧
    s'.asking = s.asking ∧ Recalls t m f k s'

/-- Reading a pattern from memory delivers what its text describes. -/
theorem readsRight_quietly (t : Tree) (m : Matcher) (f : Frame) (k : Nat) :
    ReadsRight m.readers (YieldsQuietly t m f k) m.readPattern where
  pure a := fun s hs => ⟨s, rfl, rfl, rfl, hs⟩
  bind := by
    intro α β x g a b hx hg s hs
    obtain ⟨s₁, hrun, hwarnings, hasking, hs₁⟩ := hx s hs
    obtain ⟨s₂, hrun', hwarnings', hasking', hs₂⟩ := hg s₁ hs₁
    exact ⟨s₂, (runFrom_bind_ok hrun).trans hrun', hwarnings'.trans hwarnings,
      hasking'.trans hasking, hs₂⟩
  read text := by
    intro s hs
    unfold readPattern
    cases m.remembers with
    | false => exact ⟨s, rfl, rfl, rfl, hs⟩
    | true =>
        simp only [Bool.not_true, Bool.false_eq_true, if_false]
        rw [runFrom_bind_ok (runFrom_get s)]
        cases hlookup : s.patterns.lookup text with
        | some p =>
            rw [hs.patterns (mem_of_lookup hlookup)]
            exact ⟨s, rfl, rfl, rfl, hs⟩
        | none =>
            refine ⟨_, rfl, rfl, rfl, fun hmem => hs.answers hmem, hs.asking, fun hmem => ?_⟩
            rcases List.mem_cons.mp hmem with heq | hmem
            · cases heq
              rfl
            · exact hs.patterns hmem

/-- Without a memory every pattern is read on the spot. -/
theorem readsRight_of_forgetful (hremembers : m.remembers = false) :
    ReadsRight m.readers (fun _ x a => x = Pure.pure a) m.readPattern where
  pure _ := rfl
  bind := by
    intro α β x g a b hx hg
    rw [hx, pure_bind, hg]
  read text := by
    unfold readPattern
    rw [hremembers]
    rfl

/-- What a state is does not depend on the patterns in memory. -/
theorem yieldsQuietly_matchState (t : Tree) (m : Matcher) (f : Frame) (k : Nat) (n : NodeId)
    (s : ElementState) :
    YieldsQuietly t m f k Bool (m.matchState n s) (m.tree.inState m.readers m.scope n s) := by
  have H := readsRight_quietly t m f k
  cases s with
  | valid => exact H.bind (H.valid? m.tree n) (H.pure _)
  | invalid => exact H.bind (H.valid? m.tree n) (H.pure _)
  | _ => exact H.pure _

/-- A matcher that remembers nothing asks for a state anew. -/
theorem matchState_of_forgetful (hremembers : m.remembers = false) (n : NodeId)
    (s : ElementState) :
    m.matchState n s = Pure.pure (m.tree.inState m.readers m.scope n s) := by
  have H := readsRight_of_forgetful hremembers
  cases s with
  | valid => exact H.bind (H.valid? m.tree n) (H.pure _)
  | invalid => exact H.bind (H.valid? m.tree n) (H.pure _)
  | _ => rfl

/-- Matching with and without a memory is parallel: they agree on states and warnings, and agreement
is kept by rows. -/
theorem agrees_parallel (t : Tree) (m : Matcher) (f : Frame) (k : Nat) :
    m.Parallel m.scope m.strict false fun _ x y => Agrees t m f k x y where
  same := Or.inl rfl
  pure a := by
    refine ⟨.ok a, [], ?_, Settles.pure a, ?_⟩
    · rintro e ⟨⟩
    · intro s hs
      exact ⟨s, rfl, rfl, rfl, hs⟩
  bind := by
    rintro α β x y g g' ⟨r, ws, hr, hy, hx⟩ hg
    cases r with
    | error e =>
        refine ⟨.error e, ws, fun e' _ => hr e rfl, hy.bind_error, fun s hs => ?_⟩
        obtain ⟨s', hrun, hrest⟩ := hx s hs
        exact ⟨s', runFrom_bind_error hrun, hrest⟩
    | ok a =>
        obtain ⟨r', ws', hr', hy', hx'⟩ := hg a
        refine ⟨r', ws ++ ws', hr', hy.bind hy', fun s hs => ?_⟩
        obtain ⟨s₁, hrun, hwarnings, hasking, hs₁⟩ := hx s hs
        obtain ⟨s₂, hrun', hwarnings', hasking', hs₂⟩ := hx' s₁ hs₁
        refine ⟨s₂, (runFrom_bind_ok hrun).trans hrun', ?_, hasking'.trans hasking, hs₂⟩
        rw [hwarnings', MatchMemory.tell_append]
        exact MatchMemory.tell_congr hwarnings ws'
  state n s _ := by
    refine ⟨.ok (m.tree.inState m.readers m.scope n s), [], ?_, ?_,
      yieldsQuietly_matchState t m f k n s⟩
    · rintro e ⟨⟩
    · rw [matchState_of_forgetful (m := m.forgetful) rfl]
      exact Settles.pure _
  unsupported e _ := by
    cases hstrict : m.strict with
    | true =>
        unfold unsupported
        rw [hstrict]
        refine ⟨.error e, [], fun e' _ => Or.inl hstrict, Settles.throw e, fun s hs => ?_⟩
        exact ⟨s, rfl, rfl, rfl, hs⟩
    | false =>
        have hsettles := settles_unsupported hstrict e
        refine ⟨.ok false, _, ?_, settles_unsupported rfl e,
          fun s hs => ⟨_, hsettles s, rfl, rfl, ?_⟩⟩
        · rintro e' ⟨⟩
        · exact hs.of_same rfl rfl (fun w hw => MatchMemory.mem_tell.mpr (Or.inl hw)) hs.asking
  fail hprefix := by
    intro α e
    refine ⟨.error e, [], fun _ _ => Or.inr hprefix, Settles.throw e, fun s hs => ?_⟩
    exact ⟨s, rfl, rfl, rfl, hs⟩

/-! ### Answering once -/

/-- What answering once does from a memory that has no answer. -/
theorem runFrom_answerOnce {q : HasQuestion} {x : Matching Bool} (hremembers : m.remembers = true)
    (hnone : s.answers.lookup q = none) (hnew : q ∉ s.asking) :
    runFrom (m.answerOnce q x) s =
      match runFrom x { s with asking := q :: s.asking } with
      | (.ok b, s') =>
        (.ok b, { s' with asking := s'.asking.drop 1, answers := (q, b) :: s'.answers })
      | (.error e, s') => (.error e, { s' with asking := s'.asking.drop 1 }) := by
  have hcontains : s.asking.contains q = false := by
    simpa using hnew
  unfold answerOnce
  rw [hremembers]
  simp only [Bool.not_true, Bool.false_eq_true, if_false]
  rw [runFrom_bind_ok (runFrom_get s)]
  simp only [hnone, hcontains, Bool.false_eq_true, if_false]
  rw [runFrom_bind_ok (runFrom_set s _), runFrom_bind, runFrom_tryCatch]
  rcases runFrom x { s with asking := q :: s.asking } with ⟨e | b, s'⟩
  · rfl
  · rfl

/-- A question that was answered before gets the answer that is kept. -/
theorem runFrom_answerOnce_of_lookup {q : HasQuestion} {x : Matching Bool} {b : Bool}
    (hremembers : m.remembers = true) (hsome : s.answers.lookup q = some b) :
    runFrom (m.answerOnce q x) s = (.ok b, s) := by
  unfold answerOnce
  rw [hremembers]
  simp only [Bool.not_true, Bool.false_eq_true, if_false]
  rw [runFrom_bind_ok (runFrom_get s)]
  simp only [hsome]
  rfl

/-- A matcher that remembers nothing asks each time. -/
theorem answerOnce_of_forgetful {q : HasQuestion} {x : Matching Bool}
    (hremembers : m.remembers = false) : m.answerOnce q x = x := by
  unfold answerOnce
  rw [hremembers]
  exact if_pos rfl

/-- **Answering once keeps the memory right.**  The question is new, since what is being asked are
lists around this one, and the answer holds in every scope that fits.  What is being asked already
lies around this list, so the question is not among it. -/
theorem answerOnce_agrees {l : ListId} {n : NodeId} (hk : l.index < k) {σ : ShadowScope}
    (hσ : f.Fits t (f.routes.list l) σ n) {x y : Matching Bool}
    (hbody : Agrees t m f l.index x y)
    (hhas : ∀ σ, f.Fits t (f.routes.list l) σ n →
      (m.forgetful.nested (l.index + 1)).has σ l n = y) :
    Agrees t m f k (m.answerOnce (n, l) x) y := by
  obtain ⟨r, ws, hr, hy, hx⟩ := hbody
  refine ⟨r, ws, hr, hy, fun s hs => ?_⟩
  have hkept : ∀ {s₁ s₂ : MatchMemory}, Recalls t m f l.index s₂ → s₁.answers = s₂.answers →
      s₁.patterns = s₂.patterns → s₁.warnings = s₂.warnings → s₁.asking = s.asking →
        Recalls t m f k s₁ := by
    intro s₁ s₂ hs₂ hanswers hpatterns hwarnings hasking
    refine hs₂.of_same hanswers hpatterns (fun w hw => by rwa [hwarnings]) ?_
    rw [hasking]
    exact hs.asking
  have hlower : Recalls t m f l.index s :=
    hs.of_same rfl rfl (fun w hw => hw) fun q hq =>
      Nat.le_trans (Nat.le_of_lt hk) (hs.asking q hq)
  cases hremembers : m.remembers with
  | false =>
      rw [answerOnce_of_forgetful hremembers]
      obtain ⟨s', hrun, hwarnings, hasking, hs'⟩ := hx s hlower
      exact ⟨s', hrun, hwarnings, hasking, hkept hs' rfl rfl rfl hasking⟩
  | true =>
      cases hlookup : s.answers.lookup (n, l) with
      | some b =>
          obtain ⟨ws', htold, hsettles⟩ := hs.answers (mem_of_lookup hlookup) σ hσ
          rw [hhas σ hσ] at hsettles
          obtain ⟨rfl, htell⟩ := hy.unique hsettles
          refine ⟨s, runFrom_answerOnce_of_lookup hremembers hlookup, ?_, rfl, hs⟩
          rw [htell, MatchMemory.tell_of_subset htold]
      | none =>
          have hnew : (n, l) ∉ s.asking := fun hmem =>
            absurd (hs.asking _ hmem) (Nat.not_le_of_lt hk)
          have hasked : Recalls t m f l.index { s with asking := (n, l) :: s.asking } := by
            refine hs.of_same rfl rfl (fun w hw => hw) fun q hq => ?_
            rcases List.mem_cons.mp hq with rfl | hq
            · exact Nat.le_refl _
            · exact Nat.le_trans (Nat.le_of_lt hk) (hs.asking q hq)
          obtain ⟨s', hrun, hwarnings, hasking, hs'⟩ := hx _ hasked
          have hrun' := runFrom_answerOnce (x := x) hremembers hlookup hnew
          rw [hrun] at hrun'
          have hdrop : s'.asking.drop 1 = s.asking := by
            rw [hasking]
            rfl
          cases r with
          | error e =>
              refine ⟨_, hrun', hwarnings, hdrop, hkept hs' rfl rfl rfl hdrop⟩
          | ok b =>
              refine ⟨_, hrun', hwarnings, hdrop, ?_, ?_, hs'.patterns⟩
              · intro n' l' b' hmem σ' hσ'
                rcases List.mem_cons.mp hmem with heq | hmem
                · cases heq
                  refine ⟨ws, fun w hw => ?_, ?_⟩
                  · rw [hwarnings]
                    exact MatchMemory.mem_tell.mpr (Or.inr hw)
                  · rw [hhas σ' hσ']
                    exact hy
                · exact hs'.answers hmem σ' hσ'
              · rw [hdrop]
                exact hs.asking

/-! ### Ways along a chain -/

/-- In a row of compounds that is read to the left, from one with the way `r`, each has its own. -/
def CoversLeft (F : Routes) (r : Route) : CompoundId → List (Combinator × CompoundId) → Prop
  | c, [] => F.compound c = r
  | c, (q, d) :: more => F.compound c = r ∧ CoversLeft F (r.across q) d more

/-- A chain that is covered is covered with one more step at its left end. -/
theorem CoversLeft.concat {F : Routes} {r : Route} {c : CompoundId}
    {steps : List (Combinator × CompoundId)} (h : CoversLeft F r c steps) {q : Combinator}
    {d : CompoundId} (hd : F.compound d = r.before ((q :: (steps.map Prod.fst).reverse))) :
    CoversLeft F r c (steps ++ [(q, d)]) := by
  induction steps generalizing r c with
  | nil => exact ⟨h, hd⟩
  | cons step steps ih =>
      obtain ⟨p, e⟩ := step
      refine ⟨h.1, ih h.2 ?_⟩
      rw [hd, List.map_cons, List.reverse_cons, ← List.cons_append, Route.before_append]
      rfl

/-- The way of a complex selector is read from its subject to the left. -/
theorem coversLeft_of_covers {F : Routes} {r : Route} {c : ComplexSelector}
    (h : F.Covers r c.first c.joined) : CoversLeft F r c.subject c.leftward := by
  induction hjoined : c.joined generalizing c with
  | nil =>
      rw [hjoined] at h
      unfold ComplexSelector.subject ComplexSelector.leftward ComplexSelector.combinators
      rw [hjoined]
      exact h
  | cons step more ih =>
      obtain ⟨q, d⟩ := step
      rw [hjoined] at h
      obtain ⟨hfirst, hrest⟩ := h
      rw [ComplexSelector.subject_of_joined hjoined, ComplexSelector.leftward_of_joined hjoined]
      refine (ih hrest rfl).concat ?_
      rw [ComplexSelector.map_fst_leftward, List.reverse_reverse]
      exact hfirst

/-! ### Matching lists -/

variable {σ : ShadowScope} {sub sub' : Nested}

/-- What a compound asks agrees if the lists of its tests do, on the ways into the tests. -/
theorem asks_agree (h : t.WellFormed) (hm : m.tree = t.view) (hF : f.routes.Describes m.arena)
    {c : CompoundId} (hc : c.index < m.arena.compounds.size) {n : NodeId}
    (hsub : ∀ s ∈ (m.arena.compound c).simples, ∀ l, s.nestedList? = some l →
      ∀ σ x, f.Fits t (f.routes.list l) σ x →
        Agrees t m f k (sub.list σ l x) (sub'.list σ l x) ∧
          Agrees t m f k (sub.has σ l x) (sub'.has σ l x))
    (hσ : f.Fits t (f.routes.compound c) σ n) :
    Asks m (fun _ x y => Agrees t m f k x y) sub sub' σ σ c n := by
  have hinner : ∀ s ∈ (m.arena.compound c).simples, s.asksHost = false →
      ∀ l, s.nestedList? = some l → ∀ x, t.rootOf x = t.rootOf n →
        f.Fits t (f.routes.list l) σ x := by
    intro s hs hasks l hl x hx
    rw [hF.compound hc s hs l hl, Route.into, hasks]
    exact hσ.congr hx
  constructor
  · intro s hs hasks _ l hl x hx
    exact (hsub s hs l hl σ x (hinner s hs hasks l hl x (rootOf_of_asked h hm hx))).1
  · intro l hs
    exact (hsub _ hs l rfl σ n (hinner _ hs rfl l rfl n rfl)).2
  · intro s hs hasks l hl e x hkind hscope he hx
    refine (hsub s hs l hl σ x ?_).1
    rw [hm] at he hx
    rw [hF.compound hc s hs l hl, Route.into, hasks]
    refine hσ.host ?_
    rw [hscope]
    intro heq
    exact h.rootOf_ne_of_hosting he hx (Option.some.inj heq).symm
  · exact fun _ => Iff.rfl

/-- A compound is matched with a memory as without one if the lists of its tests are. -/
theorem matchCompound_agrees (h : t.WellFormed) (hm : m.tree = t.view)
    (hF : f.routes.Describes m.arena) {c : CompoundId} (hc : c.index < m.arena.compounds.size)
    {n : NodeId}
    (hsub : ∀ s ∈ (m.arena.compound c).simples, ∀ l, s.nestedList? = some l →
      ∀ σ x, f.Fits t (f.routes.list l) σ x →
        Agrees t m f k (sub.list σ l x) (sub'.list σ l x) ∧
          Agrees t m f k (sub.has σ l x) (sub'.has σ l x))
    (hσ : f.Fits t (f.routes.compound c) σ n) :
    Agrees t m f k (m.matchCompound sub σ c n) (m.forgetful.matchCompound sub' σ c n) :=
  (agrees_parallel t m f k).matchCompound (asks_agree h hm hF hc hsub hσ) (Or.inl rfl)

/-- **The ways along a chain**: each compound is tested in a scope that fits its own way. -/
theorem alikeAlong_agrees (h : t.WellFormed) (hm : m.tree = t.view)
    (hF : f.routes.Describes m.arena) {steps : List (Combinator × CompoundId)} {c : CompoundId}
    {n : NodeId} {r : Route} (hcovers : CoversLeft f.routes r c steps)
    (hstored : ∀ d ∈ c :: steps.map Prod.snd, d.index < m.arena.compounds.size)
    (hsub : ∀ d ∈ c :: steps.map Prod.snd, ∀ s ∈ (m.arena.compound d).simples,
      ∀ l, s.nestedList? = some l → ∀ σ x, f.Fits t (f.routes.list l) σ x →
        Agrees t m f k (sub.list σ l x) (sub'.list σ l x) ∧
          Agrees t m f k (sub.has σ l x) (sub'.has σ l x))
    (hσ : f.Fits t r σ n) :
    AlikeAlong m m.scope m.strict false (fun _ x y => Agrees t m f k x y) sub sub' steps σ σ c
      n := by
  induction steps generalizing σ c n r with
  | nil =>
      have hc : f.routes.compound c = r := hcovers
      exact matchCompound_agrees h hm hF (hstored c List.mem_cons_self)
        (hsub c List.mem_cons_self) (hc ▸ hσ)
  | cons step more ih =>
      obtain ⟨q, d⟩ := step
      obtain ⟨hc, hmore⟩ := hcovers
      refine ⟨matchCompound_agrees h hm hF (hstored c List.mem_cons_self)
        (hsub c List.mem_cons_self) (hc ▸ hσ), fun left hleft => ?_⟩
      refine ih hmore (fun e he => hstored e (List.mem_cons_of_mem c he))
        (fun e he => hsub e (List.mem_cons_of_mem c he)) ?_
      rw [hm, h.mem_leftOf] at hleft
      exact hσ.across h hm hleft

/-- A complex selector is matched with a memory as without one if the lists inside of it are. -/
theorem matchComplex_agrees (h : t.WellFormed) (hm : m.tree = t.view)
    (hF : f.routes.Describes m.arena) {l : ListId} (hl : l.index < m.arena.listCount)
    (hsub : ∀ inner : ListId, inner.index < l.index → ∀ σ x,
      f.Fits t (f.routes.list inner) σ x →
        Agrees t m f k (sub.list σ inner x) (sub'.list σ inner x) ∧
          Agrees t m f k (sub.has σ inner x) (sub'.has σ inner x))
    {id : ComplexId} (hid : id ∈ (m.arena.list l).complexes)
    (anchor : Option (Combinator × NodeId)) {n : NodeId}
    (hσ : f.Fits t (f.routes.list l) σ n) :
    Agrees t m f k (m.matchComplex sub anchor σ id n)
      (m.forgetful.matchComplex sub' anchor σ id n) := by
  have hstored := hF.lists hl id hid
  have hcovers := hF.complex hstored
  rw [hF.list hl id hid] at hcovers
  refine (agrees_parallel t m f k).matchChain anchor
    (alikeAlong_agrees h hm hF (coversLeft_of_covers hcovers) ?_ ?_ hσ)
  · intro d hd
    exact (hF.complexes hstored).compounds d (ComplexSelector.mem_of_mem_chain hd)
  · intro d hd s hs inner hinner
    have hd' := ComplexSelector.mem_of_mem_chain hd
    exact hsub inner (hF.smaller hl ⟨id, hid, d, hd', s, hs, hinner⟩)

/-- **Lists are matched with a memory as without one**, by induction on the level: what a list asks
lies deeper and was stored before it, so that no question is asked inside of itself. -/
theorem nested_agrees (h : t.WellFormed) (hm : m.tree = t.view)
    (hF : f.routes.Describes m.arena) {depth : Nat} {l : ListId}
    (hstored : l.index < m.arena.listCount) (hl : l.index < depth) (hk : l.index < k) {n : NodeId}
    (hσ : f.Fits t (f.routes.list l) σ n) :
    Agrees t m f k ((m.nested depth).list σ l n) ((m.forgetful.nested depth).list σ l n) ∧
      Agrees t m f k ((m.nested depth).has σ l n) ((m.forgetful.nested depth).has σ l n) := by
  induction depth generalizing k l σ n with
  | zero => exact absurd hl (Nat.not_lt_zero _)
  | succ depth ih =>
      have hsub : ∀ k', l.index ≤ k' → ∀ inner : ListId, inner.index < l.index → ∀ σ x,
          f.Fits t (f.routes.list inner) σ x →
            Agrees t m f k' ((m.nested depth).list σ inner x)
              ((m.forgetful.nested depth).list σ inner x) ∧
            Agrees t m f k' ((m.nested depth).has σ inner x)
              ((m.forgetful.nested depth).has σ inner x) := by
        intro k' hk' inner hlt σ x hx
        exact ih (Nat.lt_trans hlt hstored) (Nat.lt_of_lt_of_le hlt (Nat.le_of_lt_succ hl))
          (Nat.lt_of_lt_of_le hlt hk') hx
      constructor
      · refine (agrees_parallel t m f k).anyM fun c hc => ?_
        exact matchComplex_agrees h hm hF hstored (hsub k (Nat.le_of_lt hk)) hc none hσ
      · have hhas : ∀ σ', (m.forgetful.nested (depth + 1)).has σ' l n =
            (m.arena.list l).complexes.anyM
              (m.forgetful.matchRelative (m.forgetful.nested depth) σ' n) :=
          fun σ' => answerOnce_of_forgetful (m := m.forgetful) (q := (n, l)) rfl
        rw [hhas]
        refine answerOnce_agrees hk hσ ?_ fun σ' hσ' => ?_
        · refine (agrees_parallel t m f l.index).anyM fun c hc => ?_
          refine (agrees_parallel t m f l.index).anyM fun x hx => ?_
          have hroot := rootOf_of_candidate h hm hx
          exact matchComplex_agrees h hm hF hstored (hsub l.index (Nat.le_refl _)) hc _
            (hσ.congr hroot)
        · rw [← hhas]
          exact (nested_congr (m := m.forgetful) h hm hF.toSound hstored (Nat.lt_succ_self _) hl
            (hσ'.sameScope hσ)).2

/-! ### From outside -/

/-- In the calls for a list the scope of the matcher is the one that is given. -/
def callFrame (m : Matcher) (F : Routes) (l : ListId) : Frame :=
  { routes := F, base := F.list l, given := m.shadow }

/-- A call asks its list in the scope that it was given. -/
theorem fits_callFrame (t : Tree) (m : Matcher) (F : Routes) (l : ListId) (n : NodeId) :
    (m.callFrame F l).Fits t (F.list l) m.shadow n :=
  ⟨[], rfl, rfl⟩

/-- The lists that were stored before a list are matched with a memory as without one. -/
theorem inside_agrees (h : t.WellFormed) (hm : m.tree = t.view) (hF : f.routes.Describes m.arena)
    {l : ListId} (hl : l.index < m.arena.listCount) (hk : l.index ≤ k) (inner : ListId)
    (hlt : inner.index < l.index) (σ : ShadowScope) (x : NodeId)
    (hx : f.Fits t (f.routes.list inner) σ x) :
    Agrees t m f k (m.inside.list σ inner x) (m.forgetful.inside.list σ inner x) ∧
      Agrees t m f k (m.inside.has σ inner x) (m.forgetful.inside.has σ inner x) := by
  have hstored : inner.index < m.arena.listCount := Nat.lt_trans hlt hl
  exact nested_agrees h hm hF hstored hstored (Nat.lt_of_lt_of_le hlt hk) hx

/-- A compound of a member agrees on the way that leads to it. -/
theorem compound_agrees (h : t.WellFormed) (hm : m.tree = t.view)
    (hF : f.routes.Describes m.arena) {l : ListId} (hl : l.index < m.arena.listCount)
    (hk : l.index ≤ k) {id : ComplexId} (hid : id ∈ (m.arena.list l).complexes) {d : CompoundId}
    (hd : d ∈ (m.arena.complex id).compounds) {n : NodeId}
    (hσ : f.Fits t (f.routes.compound d) σ n) :
    Agrees t m f k (m.matchCompound m.inside σ d n)
      (m.forgetful.matchCompound m.forgetful.inside σ d n) := by
  have hstored := (hF.complexes (hF.lists hl id hid)).compounds d hd
  refine matchCompound_agrees h hm hF hstored ?_ hσ
  intro s hs inner hinner
  exact inside_agrees h hm hF hl hk inner (hF.smaller hl ⟨id, hid, d, hd, s, hs, hinner⟩)

variable {F : Routes}

/-- A member of a list is matched from outside with a memory as without one. -/
theorem matchesComplex_agrees (h : t.WellFormed) (hm : m.tree = t.view)
    (hF : F.Describes m.arena) {l : ListId} (hl : l.index < m.arena.listCount) {id : ComplexId}
    (hid : id ∈ (m.arena.list l).complexes) (n : NodeId) :
    Agrees t m (m.callFrame F l) m.arena.listCount (m.matchesComplex id n)
      (m.forgetful.matchesComplex id n) :=
  matchComplex_agrees (f := m.callFrame F l) h hm hF hl
    (inside_agrees (f := m.callFrame F l) h hm hF hl (Nat.le_of_lt hl)) hid none
    (fits_callFrame t m F l n)

/-- A compound of a member without slots is asked in the scope of the matcher. -/
theorem fits_callFrame_of_slotFree (hF : F.Describes m.arena) {l : ListId} {id : ComplexId}
    (hid : id ∈ (m.arena.list l).complexes)
    (hslot : Combinator.slot ∉ (m.arena.complex id).combinators) {d : CompoundId}
    (hd : d ∈ (m.arena.complex id).compounds) (n : NodeId) :
    (m.callFrame F l).Fits t (F.compound d) m.shadow n := by
  have hl := Arena.lt_of_mem_list hid
  have hcovers := hF.complex (hF.lists hl id hid)
  rw [hF.list hl id hid] at hcovers
  have hway : F.compound d = F.list l := hcovers.of_slotFree hslot d hd
  rw [hway]
  exact fits_callFrame t m F l n

end Matcher

end Selectors

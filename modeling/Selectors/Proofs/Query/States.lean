import Selectors.Proofs.Matching.Alone
import Selectors.Proofs.Query.Agreement

/-!
# Asking for one state

A pseudo-class that names a state of elements makes a selector by itself.  Such a selector is
compiled to one pseudo-class and nothing else, so what a call says of an element is whether the
element is in that state, in strict calls as in lenient ones.  With `:has()` around it the call says
whether some element below is in that state.

* `ElementState.selector` is the text, and `ElementState.exists_compile` what it is compiled to;
  `ElementState.selectorBelow` and `ElementState.exists_compile_below` are those with `:has()`.
* `Engine.Reached.verdict_state` and `Engine.Reached.verdict_stateBelow` are the answers of calls.
-/

namespace Selectors

/-- Whether a list is one pseudo-class and nothing else. -/
def Arena.holdsOnly (a : Arena) (p : PseudoClass) (l : ListId) : Bool :=
  match (a.list l).complexes with
  | [c] =>
    let d := (a.complex c).first
    l.index < a.lists.size && c.index < a.complexes.size && d.index < a.compounds.size
      && (a.complex c).joined.isEmpty && (a.compound d).pseudoElement.isNone
      && (a.compound d).inOrder == [.pseudo p]
  | _ => false

/-- What is checked of the first list is that it holds one test alone. -/
theorem Arena.holdsAlone_of_holdsOnly {a : Arena} {p : PseudoClass} {l : ListId}
    (h : a.holdsOnly p l = true) : a.HoldsAlone p l := by
  unfold holdsOnly at h
  split at h
  · next c hlist =>
      simp only [Bool.and_eq_true, decide_eq_true_eq, List.isEmpty_iff,
        Option.isNone_iff_eq_none, beq_iff_eq] at h
      obtain ⟨⟨⟨⟨⟨hl, hc⟩, hd⟩, hjoined⟩, hpseudo⟩, horder⟩ := h
      exact ⟨hl, c, _, hlist, hc, rfl, hjoined, hd, hpseudo, horder⟩
  · cases h

namespace ElementState

/-- The selector that asks for the state. -/
def selector (state : ElementState) : String :=
  ":" ++ state.keyword

/-- **The name of every state is compiled** to the pseudo-class for it, alone. -/
theorem exists_compile (state : ElementState) :
    ∃ s, Selectors.compile state.selector = .ok s ∧ s.arena.HoldsAlone (.state state) s.root := by
  have hall : (all.all fun state => (Selectors.compile state.selector).toOption.any fun s =>
      s.arena.holdsOnly (.state state) s.root) = true := by
    decide +kernel
  have hstate := List.all_eq_true.mp hall state (mem_all state)
  cases hcompile : Selectors.compile state.selector with
  | error err => simp [hcompile, Except.toOption] at hstate
  | ok s =>
      rw [hcompile] at hstate
      exact ⟨s, rfl, Arena.holdsAlone_of_holdsOnly hstate⟩

/-- The selector that asks for an element below in the state. -/
def selectorBelow (state : ElementState) : String :=
  ":has(" ++ state.selector ++ ")"

/-- The name of every state is compiled inside of `:has()` too, to a list with no combinator.  The
argument is the first list that is stored. -/
theorem exists_compile_below (state : ElementState) :
    ∃ s l, Selectors.compile state.selectorBelow = .ok s ∧
      s.arena.HoldsAlone (.logical .has l) s.root ∧ s.arena.HoldsAlone (.state state) l ∧
        ∀ c ∈ (s.arena.list l).complexes,
          (s.arena.complex c).leading.getD .descendant = .descendant := by
  have hall : (all.all fun state =>
      (Selectors.compile state.selectorBelow).toOption.any fun s =>
        s.arena.holdsOnly (.logical .has ⟨0⟩) s.root && s.arena.holdsOnly (.state state) ⟨0⟩ &&
          (s.arena.list ⟨0⟩).complexes.all fun c =>
            (s.arena.complex c).leading.getD .descendant == .descendant) = true := by
    decide +kernel
  have hstate := List.all_eq_true.mp hall state (mem_all state)
  cases hcompile : Selectors.compile state.selectorBelow with
  | error err => simp [hcompile, Except.toOption] at hstate
  | ok s =>
      rw [hcompile] at hstate
      simp only [Except.toOption, Option.any_some, Bool.and_eq_true, List.all_eq_true,
        beq_iff_eq] at hstate
      obtain ⟨⟨hroot, hinner⟩, hlead⟩ := hstate
      exact ⟨s, ⟨0⟩, rfl, Arena.holdsAlone_of_holdsOnly hroot, Arena.holdsAlone_of_holdsOnly hinner,
        hlead⟩

end ElementState

namespace Matcher

/-- The search that `:has()` with a state makes below a node. -/
def seekBelow (m : Matcher) (state : ElementState) (n : NodeId) : Matching Bool :=
  (m.tree.elementsBelow n).anyM fun x => do
    if !(← m.matchState x state) then
      return false
    return m.tree.related n x .descendant

/-- The search finds an element in the state if there is one, whatever patterns are in memory.
Every element below is a descendant. -/
theorem yieldsQuietly_seekBelow {t : Tree} (h : t.WellFormed) {m : Matcher}
    (hm : m.tree = t.view) (f : Frame) (k : Nat) (state : ElementState) (n : NodeId) :
    YieldsQuietly t m f k Bool (m.seekBelow state n)
      ((m.tree.elementsBelow n).any fun x => m.tree.inState m.readers m.scope x state) := by
  have H := readsRight_quietly t m f k
  have hseek : YieldsQuietly t m f k Bool (m.seekBelow state n)
      ((m.tree.elementsBelow n).anyM fun x => (Pure.pure
        (m.tree.inState m.readers m.scope x state &&
          m.tree.related n x .descendant) : Id Bool)).run := by
    refine H.anyM fun x => H.bind (yieldsQuietly_matchState t m f k x state) ?_
    cases m.tree.inState m.readers m.scope x state with
    | true => exact H.pure _
    | false => exact H.pure _
  have hrelated : ∀ x ∈ m.tree.elementsBelow n, m.tree.related n x .descendant = true := by
    intro x hx
    rw [hm] at hx ⊢
    rw [TreeView.related, List.contains_iff_mem]
    exact h.mem_ancestors.mpr ((mem_elementsBelow h).mp hx).2
  have hbelow : (m.tree.elementsBelow n).any (fun x =>
      m.tree.inState m.readers m.scope x state && m.tree.related n x .descendant) =
        (m.tree.elementsBelow n).any fun x => m.tree.inState m.readers m.scope x state := by
    rw [Bool.eq_iff_iff, List.any_eq_true, List.any_eq_true]
    refine exists_congr fun x => and_congr_right fun hx => ?_
    rw [hrelated x hx, Bool.and_true]
  rw [List.anyM_pure, hbelow] at hseek
  exact hseek

end Matcher

namespace Engine

/-- What a call says of a node. -/
def verdict (e : Engine) (t : TreeView) (settings : Settings) (text : String) (n : NodeId) :
    Except SelectorError Bool :=
  (e.matchesNode t settings text n).1.result

/-- **A call makes the one test, and the test tells the state.** -/
theorem Reached.verdict_state {e : Engine} (he : e.Reached) {t : Tree} (settings : Settings)
    (state : ElementState) {n : NodeId} (hn : t.view.isElement n = true) :
    e.verdict t.view settings state.selector n =
      .ok (t.view.inState settings.readers (some n) n state) := by
  obtain ⟨s, hs, halone⟩ := state.exists_compile
  obtain ⟨F, -, -⟩ := compile_describes hs
  let m := (Query.of t.view s n settings).matcher
  obtain ⟨memory, htest, -⟩ :=
    Matcher.yieldsQuietly_matchState t m (m.callFrame F m.root) 0 n state {}
      (Matcher.recalls_new t m _ _)
  have hnode : m.matchesNode n = m.matchState n state :=
    Matcher.matchesNode_of_holdsAlone (m := m) halone hn
  rw [← hnode] at htest
  exact he.matchesNode_result hs hn htest

/-- **A call with `:has()` around a state** tells whether some element below is in that state.  The
list is stored, so there is a level for it, and the question is asked with nothing remembered. -/
theorem Reached.verdict_stateBelow {e : Engine} (he : e.Reached) {t : Tree} (h : t.WellFormed)
    (settings : Settings) (state : ElementState) {n : NodeId} (hn : t.view.isElement n = true) :
    e.verdict t.view settings state.selectorBelow n =
      .ok ((t.view.elementsBelow n).any fun x =>
        t.view.inState settings.readers (some n) x state) := by
  obtain ⟨s, l, hs, halone, hinner, hlead⟩ := state.exists_compile_below
  obtain ⟨F, -, -⟩ := compile_describes hs
  let m := (Query.of t.view s n settings).matcher
  let f := m.callFrame F m.root
  obtain ⟨k, hk⟩ := Nat.exists_eq_add_one_of_ne_zero (Nat.ne_zero_of_lt hinner.stored)
  have hnode : m.matchesNode n = m.answerOnce (n, l) (m.seekBelow state n) := by
    refine (Matcher.matchesNode_of_holdsAlone (m := m) halone hn).trans ?_
    have hinside : m.inside = m.nested (k + 1) := congrArg m.nested hk
    rw [hinside]
    exact Matcher.has_of_holdsAlone (m := m) hinner hlead k m.shadow n
  have hasked : Matcher.Recalls t m f 0 { asking := [(n, l)] } :=
    (Matcher.recalls_new t m f 0).of_same rfl rfl (fun _ hw => hw) fun _ _ => Nat.zero_le _
  obtain ⟨s', hseek, -⟩ := Matcher.yieldsQuietly_seekBelow h (m := m) rfl f 0 state n _ hasked
  have hrun : runFrom (m.answerOnce (n, l) (m.seekBelow state n)) {} = _ :=
    Matcher.runFrom_answerOnce (m := m) rfl rfl List.not_mem_nil
  rw [← hnode, hseek] at hrun
  exact he.matchesNode_result hs hn hrun

end Engine

end Selectors

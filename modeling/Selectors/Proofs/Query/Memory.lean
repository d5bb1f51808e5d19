import Selectors.Proofs.Matching.Answers
import Selectors.Proofs.Query.Parallel

/-!
# Calls with and without a memory

Within one call a matcher remembers what `:has()` answered and which patterns it read, and refuses
to answer a question inside of itself; between calls an engine remembers what it compiled.  None of
this can be told from the answers: a call gives what it gives with every selector compiled anew,
every `:has()` answered anew on each visit and every pattern read anew, failures and warnings in
their order included.

* `Matcher.members_agree` is what a query asks, with a memory and without one.
* `Engine.calls_eq_answerAnew` is the result for the four calls.
-/

namespace Selectors

namespace Matcher

variable {t : Tree} {m : Matcher} {F : Routes}

/-- What agrees is answered the same from an empty memory. -/
theorem Agrees.answer_eq {f : Frame} {k : Nat} {α : Type} {x y : Matching α}
    (h : Agrees t m f k x y) : Engine.answer x = Engine.answer y := by
  obtain ⟨r, ws, -, hy, hx⟩ := h
  obtain ⟨s', hrun, hwarnings, -⟩ := hx {} (recalls_new t m f k)
  have hresult : (Engine.answer x).result = (Engine.answer y).result := by
    rw [Engine.answer_result, Engine.answer_result, hrun, hy {}]
  have htold : (Engine.answer x).warnings = (Engine.answer y).warnings := by
    rw [Engine.answer_warnings, Engine.answer_warnings, hrun, hy {}]
    exact hwarnings
  rcases hanswer : Engine.answer x with ⟨result, warnings⟩
  rw [hanswer] at hresult htold
  subst hresult htold
  rfl

/-- **What a query asks** agrees with what it asks without a memory: members are matched in the
scope of the matcher, and so are the compounds of those that are followed, since these have no
slots. -/
theorem members_agree (h : t.WellFormed) (hm : m.tree = t.view) (hF : F.Describes m.arena)
    (hroot : m.root.index < m.arena.listCount) :
    m.MembersAlike m.scope m.strict false fun _ x y =>
      Agrees t m (m.callFrame F m.root) m.arena.listCount x y where
  complex _ hid n := matchesComplex_agrees h hm hF hroot hid n
  compound id hid hfollowed d hd n := by
    obtain ⟨hslot, -⟩ := sound_of_followed hF.toSound hroot hid hfollowed
    exact compound_agrees (f := m.callFrame F m.root) h hm hF hroot (Nat.le_of_lt hroot) hid hd
      (fits_callFrame_of_slotFree hF hid hslot hd n)

end Matcher

/-- The query that remembers nothing. -/
def Query.anew (q : Query) : Query :=
  { q with matcher := q.matcher.forgetful }

namespace Engine

/-- The answer of a call that remembers nothing: the selector is compiled for it, every `:has()` is
answered on each visit, and every pattern is read where it is needed. -/
def answerAnew (t : TreeView) (settings : Settings) (text : String) (n : NodeId)
    (target : Target) : Answer (List NodeId) :=
  match Selectors.compile text with
  | .ok s => answer ((Query.of t s n settings).anew.find target)
  | .error err => { result := .error err }

/-- **A call answers as a matcher does that remembers nothing.** -/
theorem Reached.run_eq_answerAnew {t : Tree} (ht : t.Proper) {e : Engine} (he : e.Reached)
    (settings : Settings) (text : String) (n : NodeId) (target : Target) :
    (e.run t.view settings text n target).1 = answerAnew t.view settings text n target := by
  rw [he.run_answer, answerAnew]
  cases hs : Selectors.compile text with
  | error err => rfl
  | ok s =>
      obtain ⟨F, hF, hroot⟩ := compile_describes hs
      have hmembers := Matcher.members_agree (m := (Query.of t.view s n settings).matcher)
        ht.wellFormed rfl hF hroot
      exact ((Matcher.agrees_parallel t _ _ _).find hmembers target).answer_eq

/-- **Memory is invisible**: each of the four calls gives the answer, failure or not, and the
warnings in their order, that it gives without remembering anything. -/
theorem calls_eq_answerAnew {t : Tree} (ht : t.Proper) {e : Engine} (he : e.Reached)
    (settings : Settings) (text : String) (n : NodeId) :
    (e.matchesNode t.view settings text n).1 =
        (answerAnew t.view settings text n .itself).map (!·.isEmpty) ∧
      (e.closest t.view settings text n).1 =
        (answerAnew t.view settings text n .nearest).map List.head? ∧
      (e.queryFirst t.view settings text n).1 =
        (answerAnew t.view settings text n .first).map List.head? ∧
      (e.queryAll t.view settings text n).1 = answerAnew t.view settings text n .all := by
  have hrun := he.run_eq_answerAnew ht settings text n
  refine ⟨?_, ?_, ?_, hrun .all⟩
  · exact congrArg (Answer.map (!·.isEmpty)) (hrun .itself)
  · exact congrArg (Answer.map List.head?) (hrun .nearest)
  · exact congrArg (Answer.map List.head?) (hrun .first)

/-- Both paragraphs ask the same of the box, which is answered from memory the second time. -/
theorem calls_eq_answerAnew_attachedBox :
    (answerAnew Tree.attachedBox.view {} ":has(:not(:blank)) > p" 0 .all).result = .ok [2, 3] ∧
      (answerAnew Tree.attachedBox.view {} ":has(:not(:blank)) > p" 0 .all).warnings =
        [{ component := "Selector", message := "Unsupported pseudo-class :blank" }] := by
  obtain ⟨-, -, -, hall⟩ :=
    calls_eq_answerAnew Tree.attachedBox_proper .new {} ":has(:not(:blank)) > p" 0
  rw [← hall]
  decide +kernel

end Engine

end Selectors

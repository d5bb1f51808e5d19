import Selectors.Engine
import Selectors.Proofs.Running

/-!
# The engine remembers what it compiled

An engine starts empty and keeps what it compiles, so what it has for a text is what compiling the
text gives.  Its answers depend on nothing that was asked before.

* `Engine.Reached` are the engines that calls lead to.
* `Engine.Reached.compile_eq` and `Engine.Reached.run_answer` leave the engine out of its answers.
-/

namespace Selectors

namespace Engine

/-- An engine after some calls. -/
inductive Reached : Engine → Prop
  | new : Reached {}
  | call {e : Engine} (reached : Reached e) (t : TreeView) (settings : Settings) (text : String)
      (n : NodeId) (target : Target) : Reached (e.run t settings text n target).2

/-- What is kept for a text is what compiling the text gives. -/
def Faithful (e : Engine) : Prop :=
  ∀ text s, e.compiled.lookup text = some s → Selectors.compile text = .ok s

/-- A faithful engine gives what compiling gives. -/
theorem Faithful.compile_eq {e : Engine} (h : e.Faithful) (text : String) :
    (e.compile text).1 = Selectors.compile text := by
  unfold compile
  cases hlookup : e.compiled.lookup text with
  | some s => exact (h text s hlookup).symm
  | none =>
      dsimp only
      cases Selectors.compile text with
      | ok s => rfl
      | error err => rfl

/-- Compiling keeps an engine faithful: only what compiles is kept, under its own text. -/
theorem Faithful.compile {e : Engine} (h : e.Faithful) (text : String) :
    (e.compile text).2.Faithful := by
  unfold Engine.compile
  cases hlookup : e.compiled.lookup text with
  | some s => exact h
  | none =>
      dsimp only
      cases hcompile : Selectors.compile text with
      | error err => exact h
      | ok s =>
          intro text' s' hs'
          rw [List.lookup_cons] at hs'
          by_cases htext : text' = text
          · subst htext
            simp only [beq_self_eq_true] at hs'
            cases hs'
            exact hcompile
          · rw [beq_eq_false_iff_ne.mpr htext] at hs'
            exact h text' s' hs'

/-- After a call the engine is what it is after compiling the text. -/
theorem run_engine (e : Engine) (t : TreeView) (settings : Settings) (text : String) (n : NodeId)
    (target : Target) : (e.run t settings text n target).2 = (e.compile text).2 := by
  unfold run
  split
  · rename_i heq
    rw [heq]
  · rename_i heq
    rw [heq]

/-- **The engines that calls lead to are faithful.** -/
theorem Reached.faithful {e : Engine} (h : e.Reached) : e.Faithful := by
  induction h with
  | new =>
      intro text s hs
      cases hs
  | call _ t settings text n target ih =>
      rw [run_engine]
      exact ih.compile text

/-- An engine that calls lead to gives what compiling gives. -/
theorem Reached.compile_eq {e : Engine} (h : e.Reached) (text : String) :
    (e.compile text).1 = Selectors.compile text :=
  h.faithful.compile_eq text

theorem answer_result {α : Type} (x : Matching α) : (answer x).result = (runFrom x {}).1 :=
  rfl

theorem answer_warnings {α : Type} (x : Matching α) :
    (answer x).warnings = (runFrom x {}).2.warnings :=
  rfl

/-- **An answer depends on the call alone**, and not on the calls before it. -/
theorem Reached.run_answer {e : Engine} (h : e.Reached) (t : TreeView) (settings : Settings)
    (text : String) (n : NodeId) (target : Target) :
    (e.run t settings text n target).1 =
      match Selectors.compile text with
      | .ok s => answer ((Query.of t s n settings).find target)
      | .error err => { result := .error err } := by
  rw [← h.compile_eq text]
  unfold run
  split
  · rename_i heq
    rw [heq]
  · rename_i heq
    rw [heq]

/-- The result of a call, for any text. -/
theorem Reached.run_result {e : Engine} (h : e.Reached) (t : TreeView) (settings : Settings)
    (text : String) (n : NodeId) (target : Target) :
    (e.run t settings text n target).1.result =
      match Selectors.compile text with
      | .ok s => (runFrom ((Query.of t s n settings).find target) {}).1
      | .error err => .error err := by
  rw [h.run_answer]
  cases Selectors.compile text with
  | ok s => exact answer_result _
  | error err => rfl

/-- The result of a call for a text that compiles. -/
theorem Reached.run_result_of_ok {e : Engine} (h : e.Reached) (t : TreeView) (settings : Settings)
    {text : String} {s : CompiledSelector} (hs : Selectors.compile text = .ok s) (n : NodeId)
    (target : Target) :
    (e.run t settings text n target).1.result =
      (runFrom ((Query.of t s n settings).find target) {}).1 := by
  rw [h.run_result, hs]

end Engine

/-! ### One node -/

variable {t : TreeView} {settings : Settings} {text : String} {s : CompiledSelector} {n : NodeId}
  {b : Bool} {memory : MatchMemory}

/-- An element is found itself if it matches. -/
theorem Matcher.matchesItself_of_element {m : Matcher} (hn : m.tree.isElement n = true) :
    m.matchesItself n = m.matchesNode n := by
  have hkind : m.tree.kind n = .element := beq_iff_eq.mp hn
  rw [matchesItself, hkind]

/-- A call for the node itself finds it if it matches. -/
theorem Query.find_itself_of_run
    (hrun : runFrom ((of t s n settings).matcher.matchesItself n) {} = (.ok b, memory)) :
    (runFrom ((of t s n settings).find .itself) {}).1 = .ok (if b then [n] else []) := by
  have hfind : runFrom ((of t s n settings).find .itself) {} =
      (.ok (if b then [n] else []), memory) := by
    change runFrom (do
      return if ← (of t s n settings).matcher.matchesItself n then [n] else []) {} = _
    rw [runFrom_bind_ok hrun]
    rfl
  rw [hfind]

/-- What a call says of a node is what matching it gives. -/
theorem Engine.Reached.result_of_run {e : Engine} (he : e.Reached)
    (hs : Selectors.compile text = .ok s)
    (hrun : runFrom ((Query.of t s n settings).matcher.matchesItself n) {} = (.ok b, memory)) :
    (e.matchesNode t settings text n).1.result = .ok b := by
  change ((e.run t settings text n .itself).1.result).map _ = _
  rw [he.run_result_of_ok t settings hs, Query.find_itself_of_run hrun]
  cases b with
  | true => rfl
  | false => rfl

end Selectors

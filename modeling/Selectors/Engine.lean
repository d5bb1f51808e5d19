import Selectors.Query

/-!
# The engine

The engine compiles a selector when it first sees its text, keeps the result, and answers the four
questions of a document: does a node match, which is the nearest match above, and which are the
first match and all matches below.

* `Engine.compile` compiles or remembers; a text that fails is not kept.
* `Engine.run` asks one question, and tells what was to be warned of.
-/

namespace Selectors

/-- The selectors compiled so far, by their text. -/
structure Engine where
  compiled : List (String × CompiledSelector) := []
  deriving Repr

/-- The answer of a call with the warnings that it gave. -/
structure Answer (α : Type) where
  result : Except SelectorError α
  warnings : List Warning := []

namespace Answer

/-- Applies a function to an answer that is no failure. -/
def map {α β : Type} (f : α → β) (a : Answer α) : Answer β :=
  { result := a.result.map f, warnings := a.warnings }

end Answer

namespace Engine

/-- The number of selectors kept. -/
def size (e : Engine) : Nat :=
  e.compiled.length

/-- The selector with the text, with the engine that keeps it from now on. -/
def compile (e : Engine) (text : String) : Except SelectorError CompiledSelector × Engine :=
  match e.compiled.lookup text with
  | some s => (.ok s, e)
  | none =>
    match Selectors.compile text with
    | .ok s => (.ok s, { compiled := (text, s) :: e.compiled })
    | .error err => (.error err, e)

/-- Runs a computation of the matcher from an empty memory. -/
def answer {α : Type} (a : Matching α) : Answer α :=
  let (result, memory) := a.run.run {}
  { result, warnings := memory.warnings }

/-- Asks one question of a tree. -/
def run (e : Engine) (t : TreeView) (settings : Settings) (text : String) (reference : NodeId)
    (target : Target) : Answer (List NodeId) × Engine :=
  match e.compile text with
  | (.ok s, e) => (answer ((Query.of t s reference settings).find target), e)
  | (.error err, e) => ({ result := .error err }, e)

variable (e : Engine) (t : TreeView) (settings : Settings) (text : String) (n : NodeId)

/-- Whether a node matches. -/
def matchesNode : Answer Bool × Engine :=
  let (a, e) := e.run t settings text n .itself
  (a.map (!·.isEmpty), e)

/-- The node or the nearest element above it that matches. -/
def closest : Answer (Option NodeId) × Engine :=
  let (a, e) := e.run t settings text n .nearest
  (a.map List.head?, e)

/-- The first match below a node. -/
def queryFirst : Answer (Option NodeId) × Engine :=
  let (a, e) := e.run t settings text n .first
  (a.map List.head?, e)

/-- All matches below a node. -/
def queryAll : Answer (List NodeId) × Engine :=
  e.run t settings text n .all

end Engine

end Selectors

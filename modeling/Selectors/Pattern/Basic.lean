import Selectors.Pattern.Class

/-!
# Patterns

A pattern describes texts. Its meaning is the list of places that can be reached from a place in a
text, the preferred one first; no place is listed twice, so that the lists stay short.

* `Pattern` is the language: classes, tests between characters, choices, loops, groups that are
  remembered, parts that are not tried again, and looks ahead and behind.
* `PatternTest` is what is used of a pattern outside.
* `Pattern.reach` are the places reached, and `Pattern.occursIn` says whether there is one from some
  place of a text.
-/

namespace Selectors

/-- A test of the place between two characters. -/
inductive PlaceTest where
  | textStart
  | textEnd
  /-- At the end, or before a line end that ends the text. -/
  | lastLineEnd
  | lineStart
  | lineEnd
  | wordEdge
  | noWordEdge
  | wordStart
  | wordEnd
  deriving DecidableEq, Repr

/-- A description of texts. -/
inductive Pattern where
  | empty
  | char (set : CharClass) (ignoreCase : Bool)
  | test (t : PlaceTest)
  | seq (p q : Pattern)
  /-- The first is preferred. -/
  | either (p q : Pattern)
  /-- A part whose text is remembered under a number. -/
  | group (number : Nat) (p : Pattern)
  /-- A part that stands `low` times or more often, as often as it can or as seldom. -/
  | loop (p : Pattern) (low : Nat) (high : Option Nat) (greedy : Bool)
  /-- A part of which only the preferred way is tried. -/
  | once (p : Pattern)
  /-- What follows, or stands before, is described by `p`, or is not. -/
  | look (behind negated : Bool) (p : Pattern)
  /-- The text that a group has matched. -/
  | same (number : Nat) (ignoreCase : Bool)
  deriving DecidableEq, Repr

/-- What a pattern says of texts; nothing of those on which its test gives up. -/
abbrev PatternTest := String → Option Bool

/-- A text in which places are counted. -/
abbrev Subject := Array Char

namespace PlaceTest

def holds (s : Subject) (offset : Nat) : PlaceTest → Bool
  | .textStart => offset == 0
  | .textEnd => offset == s.size
  | .lastLineEnd => (s.toList.drop offset).all (· == '\n')
  | .lineStart => offset == 0 || s[offset - 1]? == some '\n'
  | .lineEnd => offset == s.size || s[offset]? == some '\n'
  | .wordEdge => before != after
  | .noWordEdge => before == after
  | .wordStart => !before && after
  | .wordEnd => before && !after
where
  before := offset != 0 && s[offset - 1]?.any Text.isWord
  after := s[offset]?.any Text.isWord

end PlaceTest

namespace Pattern

/-- A place in a text, with the texts that groups have matched on the way, the latest first. -/
structure Place where
  offset : Nat
  groups : List (Nat × List Char) := []
  deriving DecidableEq, Repr

/-- The places in order, each only where it stands first. -/
def distinct (ps : List Place) : List Place :=
  (ps.foldl (fun seen p => if seen.contains p then seen else p :: seen) []).reverse

/-- The places reached by `count` rounds. When a round changes nothing, the others do not either. -/
def rounds (step : Place → List Place) : Nat → List Place → List Place
  | 0, ps => ps
  | count + 1, ps =>
    let next := distinct (ps.flatMap step)
    if next = ps then ps else rounds step count next

/-- What a walk through further rounds has seen, and the places that it found, the last first. -/
structure Walk where
  seen : List (Option Nat × Place) := []
  found : List Place := []

/-- Walks through further rounds, of which `left` may be made, each of which has to move on. The
place itself comes after all that is reached from it if many rounds are preferred, and else before.
-/
def walk (step : Place → List Place) (greedy : Bool) : Nat → Option Nat → Walk → Place → Walk
  | 0, _, w, _ => w
  | bound + 1, left, w, p =>
    if w.seen.contains (left, p) then w
    else
      let w := { w with seen := (left, p) :: w.seen }
      let next := if left = some 0 then [] else (step p).filter fun q => p.offset < q.offset
      let onward := fun w => next.foldl (walk step greedy bound (left.map (· - 1))) w
      if greedy then
        let w := onward w
        { w with found := p :: w.found }
      else
        onward { w with found := p :: w.found }

/-- The places reached by further rounds. -/
def furtherRounds (step : Place → List Place) (size : Nat) (greedy : Bool) (left : Option Nat)
    (ps : List Place) : List Place :=
  distinct (ps.foldl (walk step greedy (size + 1) left) {}).found.reverse

/-- Whether a text stands at a place. -/
def standsAt (s : Subject) (ignoreCase : Bool) (offset : Nat) (text : List Char) : Bool :=
  let there := (s.extract offset (offset + text.length)).toList
  if ignoreCase then there.map Text.fold == text.map Text.fold else there == text

/-- The places that a pattern reaches from a place, the preferred one first. -/
def reach (s : Subject) : Pattern → Place → List Place
  | empty, p => [p]
  | char set ignoreCase, p =>
    if s[p.offset]?.any (set.contains ignoreCase) then [{ p with offset := p.offset + 1 }] else []
  | test t, p => if t.holds s p.offset then [p] else []
  | seq a b, p => distinct ((reach s a p).flatMap (reach s b))
  | either a b, p => distinct (reach s a p ++ reach s b p)
  | group number a, p =>
    (reach s a p).map fun q =>
      { q with groups := (number, (s.extract p.offset q.offset).toList)
                          :: q.groups.filter (·.1 != number) }
  | loop a low high greedy, p =>
    let left := high.map (· - low)
    furtherRounds (reach s a) s.size greedy left (rounds (reach s a) low [p])
  | once a, p => (reach s a p).take 1
  | look behind negated a, p =>
    let found :=
      if behind then
        (List.range (p.offset + 1)).flatMap fun start =>
          (reach s a { p with offset := start }).filter fun q => q.offset = p.offset
      else
        reach s a p
    match found.head? with
    | some q => if negated then [] else [{ q with offset := p.offset }]
    | none => if negated then [p] else []
  | same number ignoreCase, p =>
    match p.groups.lookup number with
    | some text =>
      if standsAt s ignoreCase p.offset text then [{ p with offset := p.offset + text.length }]
      else []
    | none => []

/-- Whether some part of a text is what the pattern describes. -/
def occursIn (p : Pattern) (text : String) : Bool :=
  let s := text.toList.toArray
  (List.range (s.size + 1)).any fun start => !(reach s p { offset := start }).isEmpty

/-- What a loop may repeat. A test would hold each time, and nothing is no more if repeated. -/
def isRepeatable : Pattern → Bool
  | empty | test _ | look .. => false
  | _ => true

end Pattern

end Selectors

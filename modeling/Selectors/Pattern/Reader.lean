import Selectors.Pattern.Bracket

/-!
# Reading patterns

A pattern is choices between rows of parts, and a part may be followed by how often it stands.
Groups between parentheses are remembered, or say by a question mark what else they are; some of
those only set flags for what follows.

* `Pattern.ofText?` reads a pattern; a text that is none has no meaning at all.
* `Pattern.test?` is the test that a text describes.
-/

namespace Selectors.Pattern

/-- How what follows is read. -/
structure Flags where
  ignoreCase : Bool := false
  /-- The tests for the ends of the text test for the ends of lines. -/
  lines : Bool := false
  /-- The point matches line ends too. -/
  dotAll : Bool := false
  /-- Few rounds are preferred where no mark says so, and many where one does. -/
  lazy : Bool := false
  /-- Blanks and comments between parts do not count. -/
  spaced : Bool := false
  deriving DecidableEq, Repr

/-- What a reader of patterns keeps. -/
structure Reading where
  rest : List Char
  flags : Flags := {}
  /-- The number of groups opened so far. -/
  groups : Nat := 0
  names : List (List Char × Nat) := []
  /-- Whether some group is referred to by its number. -/
  numbered : Bool := false
  /-- The least number that no reference to a group may have. -/
  limit : Nat

abbrev Reader := StateT Reading Option

namespace Reader

def skip (n : Nat) : Reader Unit :=
  modify fun s => { s with rest := s.rest.drop n }

/-- The text behind blanks and comments. A comment between parentheses has to end. -/
def skipBlanks? (spaced : Bool) : Nat → List Char → Option (List Char)
  | 0, s => some s
  | bound + 1, s =>
    match s with
    | '(' :: '?' :: '#' :: r =>
      match r.dropWhile (· != ')') with
      | _ :: r => skipBlanks? spaced bound r
      | [] => none
    | '#' :: r =>
      if spaced then skipBlanks? spaced bound ((r.dropWhile (· != '\n')).drop 1) else some s
    | c :: r =>
      if spaced && (c == ' ' || c == '\r' || c == '\n' || c == '\t') then skipBlanks? spaced bound r
      else some s
    | [] => some []

def blanks : Reader Unit := fun s =>
  (skipBlanks? s.flags.spaced (s.rest.length + 1) s.rest).map fun r => ((), { s with rest := r })

/-- A number at the front of a text that 64 bits hold. -/
def number? (s : List Char) : Option (Nat × List Char) :=
  let digits := s.takeWhile Char.isDigit
  let n := Text.natOfDigits digits
  if digits.isEmpty || Nat.pow 2 64 ≤ n then none else some (n, s.drop digits.length)

/-- How often a part stands, between braces: a number, or two with a comma, of which either may be
missing. -/
def counts? (spaced : Bool) (s : List Char) : Option ((Nat × Option Nat) × List Char) := do
  let blanks := fun (s : List Char) => skipBlanks? spaced (s.length + 1) s
  let s ← blanks s
  let (low, s) ← if s.head? = some ',' then some (0, s) else number? s
  let s ← blanks s
  match s with
  | '\x7d' :: r => some ((low, some low), r)
  | ',' :: r =>
    let s ← blanks r
    let (high, s) := (number? s).elim (none, s) fun (n, s) => (some n, s)
    match ← blanks s with
    | '\x7d' :: r => some ((low, high), r)
    | _ => none
  | _ => none

/-- How often the part before stands, if a mark says so. Braces that are not written as counts are
characters. -/
def count? : Reader (Option (Nat × Option Nat)) := do
  let s ← get
  match s.rest with
  | '?' :: r => set { s with rest := r }; return some (0, some 1)
  | '*' :: r => set { s with rest := r }; return some (0, none)
  | '+' :: r => set { s with rest := r }; return some (1, none)
  | '\x7b' :: r =>
    match counts? s.flags.spaced r with
    | some (c, r) => set { s with rest := r }; return some c
    | none => return none
  | _ => return none

/-- Skips one character if it is at the front. -/
def mark (c : Char) : Reader Bool := do
  let s ← get
  if s.rest.head? = some c then
    skip 1
    return true
  else
    return false

/-- The largest count that a loop can have. -/
def maxCount : Nat :=
  Nat.pow 2 32 - 1

/-- A part with the count that may follow it. -/
def counted (p : Pattern) : Reader Pattern := do
  blanks
  match ← count? with
  | none => return p
  | some (low, high) =>
    if !p.isRepeatable || maxCount < low || high.any fun h => h < low || maxCount < h then
      failure
    blanks
    let few ← mark '?'
    let whole ← mark '+'
    let greedy := few == (← get).flags.lazy
    let loop := Pattern.loop p low high greedy
    return if whole then .once loop else loop

/-- One character, read as it is written. -/
def literal (c : Char) : Reader Pattern := do
  return .char (.single c) (← get).flags.ignoreCase

/-- The text of the group with a name or a number. -/
def sameNamed (name : List Char) : Reader Pattern := do
  let s ← get
  let number := (s.names.lookup name).or
    (if name.all Char.isDigit then some (Text.natOfDigits name) else none)
  match number with
  | some n => if n ≤ s.groups then return .same n s.flags.ignoreCase else failure
  | none => failure

def escape : Reader Pattern := do
  let s ← get
  let (e, rest) ← (Escape.read? s.limit false s.rest : Option _)
  set { s with rest }
  match e with
  | .literal c => literal c
  | .set a => return .char a s.flags.ignoreCase
  | .any lineEnds => return .char (if lineEnds then .not .nothing else .not (.single '\n')) false
  | .test t => return .test t
  | .sameName name => sameNamed name
  | .sameNumber n =>
    if s.groups < n then failure
    modify fun s => { s with numbered := true }
    return .same n s.flags.ignoreCase

def bracket : Reader Pattern := do
  let s ← get
  let (a, rest) ← (Bracket.read? s.limit s.rest : Option _)
  set { s with rest }
  return .char a s.flags.ignoreCase

/-- A new group, with a name if it has one. -/
def openGroup (name : Option (List Char)) : Reader Nat := do
  modify fun s =>
    let n := s.groups + 1
    { s with groups := n, names := name.elim s.names fun k => (k, n) :: s.names }
  return (← get).groups

/-- Sets one flag by its letter. -/
def setFlag? (letter : Char) (on : Bool) (f : Flags) : Option Flags :=
  match letter with
  | 'i' => some { f with ignoreCase := on }
  | 'm' => some { f with lines := on }
  | 's' => some { f with dotAll := on }
  | 'U' => some { f with lazy := on }
  | 'x' => some { f with spaced := on }
  | 'u' => if on then some f else none
  | _ => none

/-- What ends a row of flags: a colon before a part to which alone they apply, or a parenthesis. -/
inductive FlagsEnd where
  | colon
  | parenthesis

/-- Reads flags; those behind a hyphen are taken away. A hyphen needs a flag behind it. -/
def flags : Nat → (off fresh : Bool) → Reader FlagsEnd
  | 0, _, _ => failure
  | bound + 1, off, fresh => do
    blanks
    let s ← get
    match s.rest with
    | ')' :: r =>
      if fresh then failure
      set { s with rest := r }
      return .parenthesis
    | ':' :: r =>
      if off && fresh then failure
      set { s with rest := r }
      return .colon
    | '-' :: r =>
      if off then failure
      set { s with rest := r }
      flags bound true true
    | c :: r =>
      let f ← (setFlag? c (!off) s.flags : Option _)
      set { s with rest := r, flags := f }
      flags bound off false
    | [] => failure

/-- What the text behind an opening parenthesis says the group is. -/
inductive GroupKind where
  | plain
  | named (name : List Char)
  | once
  | look (behind negated : Bool)
  | same (name : List Char)
  /-- Flags, or a group that is not remembered. -/
  | flags

/-- The kind of a group, and the text behind what says it. -/
def groupKind? (s : List Char) : Option (GroupKind × List Char) :=
  match s with
  | '?' :: '=' :: r => some (.look false false, r)
  | '?' :: '!' :: r => some (.look false true, r)
  | '?' :: '<' :: '=' :: r => some (.look true false, r)
  | '?' :: '<' :: '!' :: r => some (.look true true, r)
  | '?' :: '<' :: r | '?' :: 'P' :: '<' :: r =>
    (Escape.name? '>' r).map fun (name, r) => (.named name, r)
  | '?' :: '\'' :: r => (Escape.name? '\'' r).map fun (name, r) => (.named name, r)
  | '?' :: 'P' :: '=' :: r => (Escape.name? ')' r).map fun (name, r) => (.same name, r)
  | '?' :: '>' :: r => some (.once, r)
  | '?' :: r => some (.flags, r)
  | r => some (.plain, r)

/-- How deep groups may stand in each other. -/
def maxDepth : Nat :=
  64

def close : Reader Unit := do
  if !(← mark ')') then failure

mutual

/-- Choices between rows, up to a closing parenthesis or the end. -/
def choices : Nat → Nat → Reader Pattern
  | 0, _ => failure
  | bound + 1, depth => do
    let p ← row bound depth
    blanks
    if ← mark '|' then return .either p (← choices bound depth)
    else return p

/-- Parts one after another. -/
def row : Nat → Nat → Reader Pattern
  | 0, _ => failure
  | bound + 1, depth => do
    blanks
    match (← get).rest with
    | [] | '|' :: _ | ')' :: _ => return .empty
    | _ =>
      let p ← counted (← part bound depth)
      let q ← row bound depth
      return if p = .empty then q else if q = .empty then p else .seq p q

/-- One part without its count. -/
def part : Nat → Nat → Reader Pattern
  | 0, _ => failure
  | bound + 1, depth => do
    let s ← get
    match s.rest with
    | c :: _ =>
      if c = '*' || c = '+' || c = '?' then failure
      skip 1
      match c with
      | '.' => return .char (if s.flags.dotAll then .not .nothing else .not (.single '\n')) false
      | '^' => return .test (if s.flags.lines then .lineStart else .textStart)
      | '$' => return .test (if s.flags.lines then .lineEnd else .textEnd)
      | '(' => group bound (depth + 1)
      | '\\' => escape
      | '[' => bracket
      | c => literal c
    | [] => failure

/-- What stands behind an opening parenthesis. -/
def group : Nat → Nat → Reader Pattern
  | 0, _ => failure
  | bound + 1, depth => do
    if maxDepth ≤ depth then failure
    blanks
    let s ← get
    let (kind, rest) ← (groupKind? s.rest : Option _)
    set { s with rest }
    match kind with
    | .plain =>
      let n ← openGroup none
      let p ← choices bound depth
      close
      return .group n p
    | .named name =>
      let n ← openGroup (some name)
      let p ← choices bound depth
      close
      return .group n p
    | .once =>
      let p ← choices bound depth
      close
      return .once p
    | .look behind negated =>
      let p ← choices bound depth
      close
      return .look behind negated p
    | .same name => sameNamed name
    | .flags =>
      match ← flags (rest.length + 1) false true with
      | .parenthesis => return .empty
      | .colon =>
        let p ← choices bound depth
        close
        modify fun t => { t with flags := s.flags }
        return p

end

end Reader

/-- Reads a pattern that fills a text. Groups with names and references by number do not go
together. -/
def ofText? (text : String) : Option Pattern := do
  let start : Reading := { rest := text.toList, limit := text.utf8ByteSize / 2 }
  let (p, s) ← (Reader.choices (5 * text.length + 5) 0).run start
  if s.rest.isEmpty && !(s.numbered && !s.names.isEmpty) then some p else none

/-- The test that a text describes, if it is a pattern. It never gives up. -/
def test? (text : String) : Option PatternTest :=
  (ofText? text).map fun p s => some (p.occursIn s)

end Selectors.Pattern

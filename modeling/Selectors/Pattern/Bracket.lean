import Selectors.Pattern.Escape

/-!
# Classes between brackets

A class between brackets is first cut out of the pattern by counting brackets, and then read. So a
bracket that opens inside must close inside as well.

* `Bracket.cut?` cuts a class out, its escapes resolved.
* `Bracket.read?` reads it: single characters, ranges, classes inside of it, and what operators make
  of two classes.
-/

namespace Selectors.Pattern.Bracket

/-- A part of a class between brackets. -/
inductive Part where
  /-- A character that may be a mark. -/
  | raw (c : Char)
  /-- An escaped character, which stands for itself. -/
  | literal (c : Char)
  | set (s : CharClass)
  deriving DecidableEq, Repr

/-- The part that an escape is; some escapes have no meaning in a class. -/
def partOf? : Escape → Option Part
  | .literal c => some (.literal c)
  | .set s => some (.set s)
  | _ => none

/-- The parts up to the bracket that closes the class, itself among them, and the text behind it. -/
def cutFrom? (limit : Nat) : Nat → Nat → List Char → Option (List Part × List Char)
  | 0, _, _ => none
  | _, _, [] => none
  | bound + 1, depth, '\\' :: r => do
    let (e, r) ← Escape.read? limit true r
    let part ← partOf? e
    let (parts, r) ← cutFrom? limit bound depth r
    return (part :: parts, r)
  | bound + 1, depth, '[' :: r =>
    (cutFrom? limit bound (depth + 1) r).map fun (parts, r) => (.raw '[' :: parts, r)
  | bound + 1, depth, ']' :: r =>
    if depth ≤ 1 then some ([.raw ']'], r)
    else (cutFrom? limit bound (depth - 1) r).map fun (parts, r) => (.raw ']' :: parts, r)
  | bound + 1, depth, c :: r =>
    (cutFrom? limit bound depth r).map fun (parts, r) => (.raw c :: parts, r)

/-- The parts of a class behind its opening bracket. A bracket that would close it at once does not
count. -/
def cut? (limit : Nat) (s : List Char) : Option (List Part × List Char) :=
  let (negation, s) := if s.head? = some '^' then ([Part.raw '^'], s.drop 1) else ([], s)
  let (first, s) := if s.head? = some ']' then ([Part.raw ']'], s.drop 1) else ([], s)
  (cutFrom? limit (s.length + 1) 1 s).map fun (parts, r) => (negation ++ first ++ parts, r)

/-- What two classes make together. -/
inductive Operator where
  | both
  | without
  | oneOf
  deriving DecidableEq, Repr

/-- A class that waits for what follows its operator. -/
abbrev Waiting := Option (Operator × CharClass)

def combine (w : Waiting) (s : CharClass) : CharClass :=
  match w with
  | none => s
  | some (.both, a) => .both a s
  | some (.without, a) => .without a s
  | some (.oneOf, a) => .oneOf a s

/-- The operator at the front, which is a mark written twice. -/
def operator? : List Part → Option (Operator × List Part)
  | .raw '&' :: .raw '&' :: r => some (.both, r)
  | .raw '-' :: .raw '-' :: r => some (.without, r)
  | .raw '~' :: .raw '~' :: r => some (.oneOf, r)
  | _ => none

/-- A class with a name, which stands between a colon and a colon with a bracket. -/
def named? : List Part → Option (CharClass × List Part)
  | .raw ':' :: r =>
    let (negated, r) := if r.head? = some (.raw '^') then (true, r.drop 1) else (false, r)
    let name := r.takeWhile (· ≠ .raw ':')
    let letters := name.filterMap fun p => match p with
      | .raw c => some c
      | _ => none
    match r.drop name.length with
    | .raw ':' :: .raw ']' :: r =>
      (CharClass.named? (String.ofList letters)).map fun s => (if negated then .not s else s, r)
    | _ => none
  | _ => none

/-- The character that a part is. -/
def Part.char? : Part → Option Char
  | .raw c | .literal c => some c
  | .set _ => none

def Part.toSet : Part → CharClass
  | .raw c | .literal c => .single c
  | .set s => s

/-- A part, or a range from one part to another. A hyphen before a closing bracket or another hyphen
makes no range. -/
def item? : List Part → Option (CharClass × List Part)
  | a :: .raw '-' :: .raw ']' :: r => some (a.toSet, .raw '-' :: .raw ']' :: r)
  | a :: .raw '-' :: .raw '-' :: r => some (a.toSet, .raw '-' :: .raw '-' :: r)
  | a :: .raw '-' :: b :: r => do
    let low ← a.char?
    let high ← b.char?
    if low ≤ high then some (.range low high, r) else none
  | a :: r => some (a.toSet, r)
  | [] => none

mutual

/-- The class behind an opening bracket. Hyphens at its front, or else a closing bracket, stand for
themselves. -/
def class? : Nat → List Part → Option (CharClass × List Part)
  | 0, _ => none
  | bound + 1, ps =>
    let (negated, ps) := if ps.head? = some (.raw '^') then (true, ps.drop 1) else (false, ps)
    let hyphens := ps.takeWhile (· = .raw '-')
    let ps := ps.drop hyphens.length
    let (start, ps) :=
      if !hyphens.isEmpty then (CharClass.single '-', ps)
      else if ps.head? = some (.raw ']') then (.single ']', ps.drop 1)
      else (.nothing, ps)
    (items? bound none start ps).map fun (s, r) => (if negated then .not s else s, r)

/-- The rest of a class up to its closing bracket. -/
def items? : Nat → Waiting → CharClass → List Part → Option (CharClass × List Part)
  | 0, _, _, _ => none
  | bound + 1, w, s, ps =>
    match ps with
    | .raw ']' :: r => some (combine w s, r)
    | .raw '[' :: r =>
      match named? r with
      | some (a, r) => items? bound w (.union s a) r
      | none => (class? bound r).bind fun (a, r) => items? bound w (.union s a) r
    | ps =>
      match operator? ps with
      | some (op, r) => items? bound (some (op, combine w s)) .nothing r
      | none => (item? ps).bind fun (a, r) => items? bound w (.union s a) r

end

/-- Reads a class behind its opening bracket. -/
def read? (limit : Nat) (s : List Char) : Option (CharClass × List Char) := do
  let (parts, r) ← cut? limit s
  let (set, left) ← class? (2 * parts.length + 2) parts
  if left.isEmpty then some (set, r) else none

end Selectors.Pattern.Bracket

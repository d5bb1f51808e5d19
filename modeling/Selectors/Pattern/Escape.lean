import Selectors.Pattern.Basic

/-!
# Escapes in patterns

A backslash gives the next character another meaning. A letter that has none of its own may not be
escaped, and any other character stands for itself.

* `Escape` are the meanings, and `Escape.read?` reads what stands after a backslash.
-/

namespace Selectors.Pattern

/-- What an escaped character means. -/
inductive Escape where
  | literal (c : Char)
  | set (s : CharClass)
  /-- Any character; any but a line end unless `lineEnds`. -/
  | any (lineEnds : Bool)
  | test (t : PlaceTest)
  | sameNumber (n : Nat)
  | sameName (name : List Char)
  deriving DecidableEq, Repr

namespace Escape

def isHexDigit (c : Char) : Bool :=
  CharClass.hexDigit.contains false c

/-- The value of hexadecimal digits. -/
def hexValue (s : List Char) : Nat :=
  s.foldl (fun n c =>
    16 * n + (if c.isDigit then c.toNat - '0'.toNat else c.toLower.toNat - 'a'.toNat + 10)) 0

/-- The character with a number, if there is one. -/
def charOf? (n : Nat) : Option Char :=
  if n.isValidChar then some (Char.ofNat n) else none

/-- A number of exactly `digits` digits, or of at most eight between braces. -/
def hex? (digits : Nat) (s : List Char) : Option (Escape × List Char) :=
  let plain := s.take digits
  if plain.length = digits && plain.all isHexDigit then
    (charOf? (hexValue plain)).map fun c => (literal c, s.drop digits)
  else
    match s with
    | '\x7b' :: r =>
      let inside := r.takeWhile isHexDigit
      match r.drop inside.length with
      | '\x7d' :: rest =>
        if inside.isEmpty || 8 < inside.length then none
        else (charOf? (hexValue inside)).map fun c => (literal c, rest)
      | _ => none
    | _ => none

/-- A name up to its closing mark. -/
def name? (close : Char) (s : List Char) : Option (List Char × List Char) :=
  let name := s.takeWhile Text.isWord
  match s.drop name.length with
  | c :: r => if c = close && !name.isEmpty then some (name, r) else none
  | [] => none

/-- The letters that stand for a control character. -/
def control? : Char → Option Char
  | 'a' => some '\x07'
  | 'b' => some '\x08'
  | 'f' => some '\x0c'
  | 'n' => some '\n'
  | 'r' => some '\r'
  | 't' => some '\t'
  | 'v' => some '\x0b'
  | 'e' => some '\x1b'
  | _ => none

/-- The letters that test a place or match any character; they do so outside of classes only. -/
def outside? : Char → Option Escape
  | 'A' => some (test .textStart)
  | 'z' => some (test .textEnd)
  | 'Z' => some (test .lastLineEnd)
  | 'b' => some (test .wordEdge)
  | 'B' => some (test .noWordEdge)
  | '<' => some (test .wordStart)
  | '>' => some (test .wordEnd)
  | 'O' => some (any true)
  | 'N' => some (any false)
  | _ => none

/-- The letters that stand for a class; capitals for what is not in it. -/
def set? : Char → Option CharClass
  | 'd' => some .digit
  | 'D' => some (.not .digit)
  | 's' => some .blank
  | 'S' => some (.not .blank)
  | 'w' => some .word
  | 'W' => some (.not .word)
  | 'h' => some .hexDigit
  | 'H' => some (.not .hexDigit)
  | _ => none

/-- The number of the group after a backslash, which has to be below `limit`. -/
def number? (limit : Nat) (s : List Char) : Option (Escape × List Char) :=
  let digits := s.takeWhile Char.isDigit
  let n := Text.natOfDigits digits
  if n < limit then some (sameNumber n, s.drop digits.length) else none

/-- Reads what stands after a backslash. -/
def read? (limit : Nat) (inClass : Bool) : List Char → Option (Escape × List Char)
  | [] => none
  | c :: r =>
    if c.isDigit then number? limit (c :: r)
    else if c = 'x' then hex? 2 r
    else if c = 'u' then hex? 4 r
    else if c = 'U' then hex? 8 r
    else if c = 'k' && !inClass then
      match r with
      | '<' :: r => (name? '>' r).map fun (name, r) => (sameName name, r)
      | '\'' :: r => (name? '\'' r).map fun (name, r) => (sameName name, r)
      | _ => none
    else if c = 'b' && !inClass && r.head? = some '\x7b' then none
    else
      match set? c, if inClass then none else outside? c, control? c with
      | some s, _, _ => some (set s, r)
      | none, some e, _ => some (e, r)
      | none, none, some l => some (literal l, r)
      | none, none, none => if c.isAlpha then none else some (literal c, r)

end Escape

end Selectors.Pattern

/-!
# ASCII text

Markup and selectors compare letters and cut at blanks by ASCII rules: every character outside ASCII
stands for itself.

* `lower` is the one normal form behind every comparison that ignores case.
* `pieces` cuts a text at separators and never loses one: there is one piece more than there are
  separators.
* `words` are the non-empty pieces between blanks.
-/

namespace Selectors.Text

/-- The five ASCII blanks: space, tab, line feed, form feed and carriage return. -/
def isSpace (c : Char) : Bool :=
  c == ' ' || c == '\t' || c == '\n' || c == '\x0c' || c == '\r'

/-- The text with its ASCII capitals made small. -/
def lower (s : String) : String :=
  s.map Char.toLower

/-- Equality up to the case of ASCII letters. -/
def sameLetters (s t : String) : Bool :=
  lower s == lower t

/-- The parts of a text between the characters that satisfy `p`. -/
def pieces (p : Char → Bool) : List Char → List (List Char)
  | [] => [[]]
  | c :: r =>
    if p c then
      [] :: pieces p r
    else
      match pieces p r with
      | [] => [[c]]
      | w :: ws => (c :: w) :: ws

theorem pieces_ne_nil (p : Char → Bool) (s : List Char) : pieces p s ≠ [] := by
  cases s with
  | nil => simp [pieces]
  | cons c r =>
    unfold pieces
    split
    · simp
    · split <;> simp

/-- The parts of `s` between the occurrences of `c`. -/
def splitOn (c : Char) (s : String) : List String :=
  (pieces (· == c) s.toList).map String.ofList

/-- The words of `s`: its longest runs without an ASCII blank, in order. -/
def words (s : String) : List String :=
  ((pieces isSpace s.toList).filter fun w => !w.isEmpty).map String.ofList

/-- What stands before and after the first character of `s` that satisfies `p`. -/
def cutAt? (p : Char → Bool) : List Char → Option (List Char × List Char)
  | [] => none
  | c :: r =>
    if p c then
      some ([], r)
    else
      (cutAt? p r).map fun (before, after) => (c :: before, after)

/-- The text after `lead`, if `s` begins with it. -/
def dropLead? (lead s : List Char) : Option (List Char) :=
  if lead.isPrefixOf s then some (s.drop lead.length) else none

/-- Whether `part` occurs in `s`, the empty text everywhere. -/
def occursIn (part : List Char) : List Char → Bool
  | [] => part.isEmpty
  | c :: r => part.isPrefixOf (c :: r) || occursIn part r

/-- The value of a run of decimal digits. -/
def natOfDigits (s : List Char) : Nat :=
  s.foldl (fun n c => 10 * n + (c.toNat - '0'.toNat)) 0

/-- A character that one byte encodes. -/
def isAscii (c : Char) : Bool :=
  c.toNat < 128

end Selectors.Text

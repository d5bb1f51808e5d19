import Selectors.Text.Blank
import Selectors.Text.Case
import Selectors.Text.Word

/-!
# Classes of characters

A pattern asks of one character that it is in a class: between two characters, a digit, part of a
word, a blank, or in what classes make together.

* `CharClass.contains` is membership, which may disregard case.
* `CharClass.named?` are the classes that have a name of their own between colons.
-/

namespace Selectors

/-- A set of characters. -/
inductive CharClass where
  | nothing
  | range (low high : Char)
  | digit
  | word
  | blank
  | not (a : CharClass)
  | union (a b : CharClass)
  | both (a b : CharClass)
  | without (a b : CharClass)
  /-- In one of the two, but not in both. -/
  | oneOf (a b : CharClass)
  deriving DecidableEq, Repr

namespace CharClass

/-- The class of one character. -/
def single (c : Char) : CharClass :=
  range c c

/-- Membership. Where case is disregarded, a range has the characters of which some variant lies in
it. -/
def contains (ignoreCase : Bool) : CharClass → Char → Bool
  | nothing, _ => false
  | range low high, c =>
    (if ignoreCase then Text.variants c else [c]).any fun v => low ≤ v && v ≤ high
  | digit, c => Text.isDecimalDigit c
  | word, c => Text.isWord c
  | blank, c => Text.isBlank c
  | not a, c => !a.contains ignoreCase c
  | union a b, c => a.contains ignoreCase c || b.contains ignoreCase c
  | both a b, c => a.contains ignoreCase c && b.contains ignoreCase c
  | without a b, c => a.contains ignoreCase c && !b.contains ignoreCase c
  | oneOf a b, c => a.contains ignoreCase c != b.contains ignoreCase c

/-- The class of all characters of some ranges. -/
def ofRanges (ranges : List (Char × Char)) : CharClass :=
  ranges.foldl (fun s (low, high) => union s (range low high)) nothing

/-- Hexadecimal digits. -/
def hexDigit : CharClass :=
  ofRanges [('0', '9'), ('A', 'F'), ('a', 'f')]

/-- The ASCII classes with a name. -/
def named? (name : String) : Option CharClass :=
  match name with
  | "alnum" => ofRanges [('0', '9'), ('A', 'Z'), ('a', 'z')]
  | "alpha" => ofRanges [('A', 'Z'), ('a', 'z')]
  | "ascii" => range '\x00' '\x7f'
  | "blank" => ofRanges [('\t', '\t'), (' ', ' ')]
  | "cntrl" => ofRanges [('\x00', '\x1f'), ('\x7f', '\x7f')]
  | "digit" => range '0' '9'
  | "graph" => range '!' '~'
  | "lower" => range 'a' 'z'
  | "print" => range ' ' '~'
  | "punct" => ofRanges [('!', '/'), (':', '@'), ('[', '\x60'), ('\x7b', '~')]
  | "space" => ofRanges [('\t', '\r'), (' ', ' ')]
  | "upper" => range 'A' 'Z'
  | "word" => ofRanges [('0', '9'), ('A', 'Z'), ('_', '_'), ('a', 'z')]
  | "xdigit" => hexDigit
  | _ => none

end CharClass

end Selectors

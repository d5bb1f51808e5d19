/-!
# Names in ASCII letters

A domain name may hold characters outside ASCII, and its ASCII form writes them as a row of numbers
after the ASCII ones. The characters are taken in ascending order, and each number says how far the
place of the next one is from that of the last.

* `Punycode.encode` gives the ASCII form of a label, `Punycode.decode?` reads one.
-/

namespace Selectors.Punycode

/-- The letters and digits that stand for 0 to 35. -/
def digit (d : Nat) : Char :=
  Char.ofNat (if d < 26 then 'a'.toNat + d else '0'.toNat + (d - 26))

def digitValue? (c : Char) : Option Nat :=
  if c.isDigit then some (c.toNat - '0'.toNat + 26)
  else if c.isAlpha then some (c.toLower.toNat - 'a'.toNat)
  else none

/-- The weight at which a number may end with its digit at a place. -/
def threshold (place bias : Nat) : Nat :=
  max 1 (min 26 (place - bias))

/-- How often a distance is divided before it is small, and what is left of it. -/
def shrink (distance : Nat) : Nat × Nat :=
  if 455 < distance then
    let (times, rest) := shrink (distance / 35)
    (times + 1, rest)
  else
    (0, distance)
termination_by distance
decreasing_by exact Nat.div_lt_self (by omega) (by decide)

/-- The bias after a distance, when `count` characters have been placed. -/
def adapt (distance count : Nat) (first : Bool) : Nat :=
  let distance := if first then distance / 700 else distance / 2
  let (times, rest) := shrink (distance + distance / count)
  36 * times + 36 * rest / (rest + 38)

theorem threshold_pos (place bias : Nat) : 1 ≤ threshold place bias :=
  Nat.le_max_left _ _

/-- A number in digits whose weight grows with their place. -/
def encodeNumber (bias place n : Nat) : List Char :=
  let t := threshold place bias
  if n < t then [digit n]
  else digit (t + (n - t) % (36 - t)) :: encodeNumber bias (place + 36) ((n - t) / (36 - t))
termination_by n
decreasing_by
  have := threshold_pos place bias
  exact Nat.lt_of_le_of_lt (Nat.div_le_self _ _) (by omega)

/-- What is known while characters are placed: the digits so far, the distance from the last place,
the bias and the number of characters placed. -/
structure Progress where
  written : List Char
  distance : Nat
  bias : Nat
  placed : Nat

/-- Goes past one character of the text when those with the number `n` are placed. -/
def Progress.pass (basic n : Nat) (p : Progress) (c : Char) : Progress :=
  if c.toNat < n then { p with distance := p.distance + 1 }
  else if c.toNat = n then
    { written := p.written ++ encodeNumber p.bias 36 p.distance
      distance := 0
      bias := adapt p.distance (p.placed + 1) (p.placed == basic)
      placed := p.placed + 1 }
  else p

/-- Places the characters with the numbers that are given in ascending order. -/
def encodeFrom (text : List Char) (basic : Nat) : Nat → List Nat → Progress → List Char
  | _, [], p => p.written
  | last, n :: more, p =>
    let p := { p with distance := p.distance + (n - last) * (p.placed + 1) }
    let p := text.foldl (Progress.pass basic n) p
    encodeFrom text basic (n + 1) more { p with distance := p.distance + 1 }

/-- The ASCII form of a label, without its mark. -/
def encode (text : List Char) : List Char :=
  let basic := text.filter fun c => c.toNat < 128
  let others := (((text.map Char.toNat).filter (128 ≤ ·)).mergeSort (· ≤ ·)).eraseDups
  let lead := if basic.isEmpty then [] else basic ++ ['-']
  encodeFrom text basic.length 128 others
    { written := lead, distance := 0, bias := 72, placed := basic.length }

/-- A number at the front of a row of digits. -/
def decodeNumber? (bias place weight n : Nat) : List Char → Option (Nat × List Char)
  | [] => none
  | c :: r =>
    match digitValue? c with
    | none => none
    | some d =>
      let n := n + d * weight
      let t := threshold place bias
      if d < t then some (n, r)
      else decodeNumber? bias (place + 36) (weight * (36 - t)) n r

theorem decodeNumber?_length {bias place weight n : Nat} {s : List Char} {x : Nat × List Char}
    (h : decodeNumber? bias place weight n s = some x) : x.2.length < s.length := by
  induction s generalizing place weight n with
  | nil => exact nomatch h
  | cons c r ih =>
    unfold decodeNumber? at h
    split at h
    · exact nomatch h
    · simp only at h
      split at h
      · cases h
        exact Nat.lt_succ_self _
      · exact Nat.lt_succ_of_lt (ih h)

/-- Places characters by the numbers that are left. -/
def decodeFrom? (out : List Char) (n place bias : Nat) (s : List Char) : Option (List Char) :=
  if s.isEmpty then
    some out
  else
    match h : decodeNumber? bias 36 1 place s with
    | none => none
    | some (next, rest) =>
      have := decodeNumber?_length h
      let count := out.length + 1
      let code := n + next / count
      let at_ := next % count
      if code < 0x110000 && (code < 0xD800 || 0xDFFF < code) then
        decodeFrom? (out.take at_ ++ Char.ofNat code :: out.drop at_) code (at_ + 1)
          (adapt (next - place) count (place == 0)) rest
      else
        none
termination_by s.length

/-- The label that an ASCII form stands for. -/
def decode? (s : List Char) : Option (List Char) :=
  let back := s.reverse
  let digits := (back.takeWhile (· != '-')).reverse
  let basic := ((back.dropWhile (· != '-')).drop 1).reverse
  if s.contains '-' then decodeFrom? basic 128 0 72 digits
  else decodeFrom? [] 128 0 72 s

end Selectors.Punycode

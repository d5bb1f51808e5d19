import Selectors.Text.Ascii

/-!
# Decimal numbers

A number is written as a sign, digits with at most one point, and a power of ten. `Decimal` keeps
that value exactly; a double-precision value is taken from it only where two numbers are compared or
one is shown.

* `Decimal.ofText?` reads `[+-] digits [. digits] [e [+-] digits]`, where one side of the point may
  be empty but not both.
* `Decimal.toFloat` rounds to the nearest double; what lies beyond all doubles is infinite, and what
  lies below half the smallest one is zero.
-/

namespace Selectors

/-- The number `± digits · 10 ^ exponent`. -/
structure Decimal where
  negative : Bool
  digits : Nat
  exponent : Int
  deriving DecidableEq, Repr

namespace Decimal

/-- The number of decimal digits of `n`, at least one. -/
def width (n : Nat) : Nat :=
  (Nat.toDigits 10 n).length

/-- The nearest double. A number of `w` digits times `10 ^ e` lies below `10 ^ (w + e)`, so beyond
400 either way its double is known without computing a power. -/
def toFloat (d : Decimal) : Float :=
  let size := (width d.digits : Int) + d.exponent
  let magnitude :=
    if d.digits = 0 || size < -400 then 0.0
    else if 400 < size then 1.0 / 0.0
    else Float.ofScientific d.digits (d.exponent < 0) d.exponent.natAbs
  if d.negative then -magnitude else magnitude

/-- The sign at the front of a text, and the text after it. -/
def takeSign : List Char → Bool × List Char
  | '-' :: r => (true, r)
  | '+' :: r => (false, r)
  | r => (false, r)

/-- A signed whole number that fills the text. -/
def integer? (s : List Char) : Option Int :=
  let (negative, digits) := takeSign s
  if digits.isEmpty || !digits.all Char.isDigit then
    none
  else
    let n : Int := Text.natOfDigits digits
    some (if negative then -n else n)

/-- The power of ten written after the digits: nothing, or `e` and a whole number. -/
def power? : List Char → Option Int
  | [] => some 0
  | c :: r => if c == 'e' || c == 'E' then integer? r else none

/-- The number that fills the text. -/
def ofText? (s : List Char) : Option Decimal :=
  let (negative, s) := takeSign s
  let whole := s.takeWhile Char.isDigit
  let s := s.dropWhile Char.isDigit
  let (places, s) :=
    match s with
    | '.' :: r => (r.takeWhile Char.isDigit, r.dropWhile Char.isDigit)
    | r => ([], r)
  if whole.isEmpty && places.isEmpty then
    none
  else
    (power? s).map fun e =>
      { negative, digits := Text.natOfDigits (whole ++ places), exponent := e - places.length }

end Decimal

end Selectors

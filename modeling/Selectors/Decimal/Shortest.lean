/-!
# The shortest decimal text of a double

Many decimal texts are read back as one double. The one shown has the fewest digits among them, and
of those it is the nearest to the double's exact value.

* `Binary` is a double as a signed multiple of a power of two, in exact whole numbers.
* `roundingPoint?` looks at the decimal grid `10 ^ g` for a point that reads back; if a point of the
  grid does, one of the value's two neighbours on it does.
* `shortest` takes the coarsest grid that has such a point, and `text` writes it out without an
  exponent.
-/

namespace Selectors.Decimal

/-- A finite non-zero magnitude `mantissa · 2 ^ power`; `narrow` when the double below it is only
half as far away as the one above. -/
structure Binary where
  mantissa : Nat
  power : Int
  narrow : Bool
  deriving DecidableEq, Repr

/-- The magnitude held in the exponent and fraction fields of a double. -/
def Binary.ofFields (exponent fraction : Nat) : Binary :=
  if exponent = 0 then
    { mantissa := fraction, power := -1074, narrow := false }
  else
    { mantissa := Nat.pow 2 52 + fraction
      power := (exponent : Int) - 1075
      narrow := fraction == 0 && 1 < exponent }

/-- The point of the grid `10 ^ g` that is nearest to the value, if it reads back as the value: it
lies within half the distance to the next double, ends included when the mantissa is even.
Everything is measured in units of a quarter of `2 ^ power` and scaled to whole numbers. -/
def roundingPoint? (b : Binary) (g : Int) : Option Nat :=
  let p := b.power - 2
  let unit := Nat.pow 2 p.toNat * Nat.pow 10 (-g).toNat
  let step := Nat.pow 2 (-p).toNat * Nat.pow 10 g.toNat
  let value := 4 * b.mantissa * unit
  let low := value - (if b.narrow then 1 else 2) * unit
  let high := value + 2 * unit
  let reads := fun n =>
    let x := n * step
    if b.mantissa % 2 = 0 then low ≤ x && x ≤ high else low < x && x < high
  let n := value / step
  let downReads := n != 0 && reads n
  let upReads := reads (n + 1)
  if downReads && upReads then
    some (if value - n * step ≤ (n + 1) * step - value then n else n + 1)
  else if downReads then
    some n
  else if upReads then
    some (n + 1)
  else
    none

/-- The first grid from `10 ^ g` downwards, of at most `k`, that has a point which reads back. -/
def coarsest (b : Binary) : Nat → Int → Nat × Int
  | 0, g => (0, g)
  | k + 1, g =>
    match roundingPoint? b g with
    | some n => (n, g)
    | none => coarsest b k (g - 1)

/-- The digits and the power of ten of the shortest decimal. The search starts above the value's own
power of ten, and seventeen digits always suffice below it. -/
def shortest (b : Binary) : Nat × Int :=
  let bits : Int := b.power + (b.mantissa.log2 + 1 : Nat)
  coarsest b 22 ((bits * 30103) / 100000 + 1)

/-- The number `n · 10 ^ g` written without an exponent. -/
def positional (n : Nat) (g : Int) : String :=
  let digits := Nat.toDigits 10 n
  if 0 ≤ g then
    String.ofList (digits ++ List.replicate g.toNat '0')
  else
    let places := g.natAbs
    let padded := List.replicate (places + 1 - digits.length) '0' ++ digits
    let cut := padded.length - places
    String.ofList (padded.take cut ++ '.' :: padded.drop cut)

/-- The decimal text of a double: its sign, also before a zero, and the fewest digits that read
back. -/
def text (x : Float) : String :=
  let bits := x.toBits.toNat
  let exponent := bits / Nat.pow 2 52 % Nat.pow 2 11
  let fraction := bits % Nat.pow 2 52
  let sign := if Nat.pow 2 63 ≤ bits then "-" else ""
  if exponent = 2047 then
    if fraction = 0 then sign ++ "inf" else "NaN"
  else if exponent = 0 && fraction = 0 then
    sign ++ "0"
  else
    let (n, g) := shortest (Binary.ofFields exponent fraction)
    sign ++ positional n g

end Selectors.Decimal

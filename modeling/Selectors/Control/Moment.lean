import Selectors.Control.Value
import Selectors.Decimal.Basic
import Selectors.Text.Blank

/-!
# Dates and times

Dates, months, weeks and times of day are written as numbers between separators. Two of one kind are
compared by a key, a single number that grows with the moment.

* `Moment.Date`, `Moment.Time` are the parts of a moment, with a reader each.
* `Moment.key?` reads a value of an input type and gives its key.
-/

namespace Selectors.Moment

/-- A number of digits only that 32 bits hold. -/
def number? (s : List Char) : Option Nat :=
  if s.isEmpty || !s.all Char.isDigit then none
  else
    let n := Text.natOfDigits s
    if n < Nat.pow 2 32 then some n else none

/-- A number between two limits. -/
def numberIn? (low high : Nat) (s : List Char) : Option Nat :=
  (number? s).filter fun n => low ≤ n && n ≤ high

/-- A day of a month; how long the month is does not matter. -/
structure Date where
  year : Nat
  month : Nat
  day : Nat
  deriving DecidableEq, Repr

namespace Date

/-- Reads three numbers between hyphens. -/
def ofText? (s : List Char) : Option Date :=
  match Text.pieces (· == '-') s with
  | [year, month, day] => do
    return { year := ← number? year, month := ← numberIn? 1 12 month, day := ← numberIn? 1 31 day }
  | _ => none

def key (d : Date) : Float :=
  Float.ofNat d.year * 10000.0 + Float.ofNat d.month * 100.0 + Float.ofNat d.day

end Date

/-- A time of day. -/
structure Time where
  hour : Nat
  minute : Nat
  seconds : Float

namespace Time

/-- A number of seconds below a minute, which may have a fraction. -/
def seconds? (s : List Char) : Option Float :=
  ((Decimal.ofText? s).map Decimal.toFloat).filter fun v => 0.0 ≤ v && v < 60.0

/-- Reads hours and minutes between colons, and seconds if they are there. What a further colon
separates is not read. -/
def ofText? (s : List Char) : Option Time :=
  match Text.pieces (· == ':') s with
  | hour :: minute :: more => do
    let seconds ← match more with
      | [] => some 0.0
      | seconds :: _ => seconds? seconds
    return { hour := ← numberIn? 0 23 hour, minute := ← numberIn? 0 59 minute, seconds }
  | _ => none

def key (t : Time) : Float :=
  Float.ofNat t.hour * 3600.0 + Float.ofNat t.minute * 60.0 + t.seconds

end Time

/-- What stands before and after the first occurrence of a mark. -/
def cutAtMark? (mark : List Char) : List Char → Option (List Char × List Char)
  | [] => none
  | c :: r =>
    match Text.dropLead? mark (c :: r) with
    | some after => some ([], after)
    | none => (cutAtMark? mark r).map fun (before, after) => (c :: before, after)

/-- The key of a year with a part of it, which are written before and after a mark. -/
def yearPartKey? (mark : List Char) (last : Nat) (s : List Char) : Option Float := do
  let (year, part) ← cutAtMark? mark s
  return Float.ofNat (← number? year) * 100.0 + Float.ofNat (← numberIn? 1 last part)

/-- The key of a date and a time with a letter or a space between them. -/
def localKey? (s : List Char) : Option Float := do
  let (date, time) ← Text.cutAt? (fun c => c == 'T' || c == ' ') s
  return (← Date.ofText? date).key * 100000.0 + (← Time.ofText? time).key

/-- The key of a number, which has to be finite. -/
def numberKey? (s : List Char) : Option Float :=
  ((Decimal.ofText? (Text.trim s)).map Decimal.toFloat).filter Float.isFinite

/-- The key of a value of an input type; other types have no order. -/
def key? (kind : InputType) (value : String) : Option Float :=
  match kind with
  | .number | .range => numberKey? value.toList
  | .date => (Date.ofText? value.toList).map Date.key
  | .month => yearPartKey? ['-'] 12 value.toList
  | .week => yearPartKey? ['-', 'W'] 53 value.toList
  | .time => (Time.ofText? value.toList).map Time.key
  | .datetimeLocal => localKey? value.toList
  | _ => none

end Selectors.Moment

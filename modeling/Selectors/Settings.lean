import Selectors.Datum
import Selectors.Readers

/-!
# Settings of a call

A call is strict or lenient: a strict one fails where a lenient one warns. It also says how texts in
other languages are read.

* `Settings.ofDatum?` reads settings; without a word about it, a call is lenient.
* `Settings.display` shows them.
-/

namespace Selectors

/-- How a call is made. -/
structure Settings where
  strict : Bool := false
  readers : Readers := {}

namespace Settings

/-- Reads settings from an object, of which other fields do not count, or from a list of at most one
truth value. -/
def ofDatum? : Datum → Option Settings
  | .object fields =>
    match Datum.field? "strict" fields with
    | none => some {}
    | some (.bool strict) => some { strict }
    | some _ => none
  | .list [] => some {}
  | .list [.bool strict] => some { strict }
  | _ => none

def boolText (b : Bool) : String :=
  if b then "true" else "false"

/-- The settings of a call that has a place to send warnings to, or has none. -/
def display (s : Settings) (warns : Bool) : String :=
  "Options \x7b strict: " ++ boolText s.strict ++ ", warn: " ++ boolText warns ++ " \x7d"

end Settings

end Selectors

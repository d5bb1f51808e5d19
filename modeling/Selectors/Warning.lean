import Selectors.Datum

/-!
# Warnings

Matching does not fail because a selector holds something that is known and not evaluated; it warns
instead. A warning goes to a log, or to a terminal, where each text appears once.

* `Warning` is the message with the part that it comes from, and `Warning.ofDatum?` reads one.
* `Announcer` remembers what a terminal has shown.
-/

namespace Selectors

/-- Something to tell that is no failure. -/
structure Warning where
  component : String
  message : String
  deriving DecidableEq, Repr

namespace Warning

/-- The warning in one line. -/
def display (w : Warning) : String :=
  "[" ++ w.component ++ "] " ++ w.message

/-- The warning as a terminal shows it, in yellow. -/
def terminalLine (w : Warning) : String :=
  "\x1b[33m[Kestrel " ++ w.component ++ "] ⚠ " ++ w.message ++ "\x1b[0m\n"

def toDatum (w : Warning) : Datum :=
  .object [("component", .text w.component), ("message", .text w.message)]

/-- Reads a warning from an object with both fields, or from a list of both texts in order. -/
def ofDatum? : Datum → Option Warning
  | .object fields =>
    match Datum.field? "component" fields, Datum.field? "message" fields with
    | some (.text component), some (.text message) => some { component, message }
    | _, _ => none
  | .list [.text component, .text message] => some { component, message }
  | _ => none

theorem ofDatum?_toDatum (w : Warning) : ofDatum? w.toDatum = some w := rfl

end Warning

/-- What a terminal has shown. -/
structure Announcer where
  shown : List String := []
  deriving DecidableEq, Repr

namespace Announcer

/-- Shows a warning unless its text was shown before. The answer is what is written. -/
def announce (a : Announcer) (w : Warning) : String × Announcer :=
  if a.shown.contains w.display then ("", a)
  else (w.terminalLine, { shown := w.display :: a.shown })

end Announcer

end Selectors

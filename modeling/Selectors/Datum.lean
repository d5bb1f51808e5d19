/-!
# Plain data

Settings and warnings come from outside as plain data: texts, numbers and truth values in lists and
objects.

* `Datum` is the type, `Datum.field?` looks a field of an object up.
-/

namespace Selectors

/-- A piece of plain data. -/
inductive Datum where
  | null
  | bool (b : Bool)
  | number
  | text (s : String)
  | list (items : List Datum)
  | object (fields : List (String × Datum))
  deriving Inhabited

namespace Datum

/-- The field of an object with the name. -/
def field? (name : String) (fields : List (String × Datum)) : Option Datum :=
  fields.lookup name

end Datum

end Selectors

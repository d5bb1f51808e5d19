import Selectors.Address.Url
import Selectors.Pattern.Reader
import Selectors.Text.Strong

/-!
# Readers

Some texts of a document are written in languages that are not those of selectors: the patterns of
controls, addresses, and the scripts that characters belong to. What is read in them is a parameter
of matching, and a matcher that is told nothing uses the readers of this library.

* `Readers` is what matching asks of these languages.
* `Readers.filling?` reads a pattern that describes a value as a whole.
* `Readers.samePlace` compares two addresses.
-/

namespace Selectors

/-- How the texts are read that are in other languages. -/
structure Readers where
  /-- The test that a pattern describes, if the text is one. -/
  pattern : String → Option PatternTest := Pattern.test?
  /-- The address that a text is by itself. -/
  address : String → Option Url := Url.ofText?
  /-- The address that a text is, completed by a base. -/
  join : Url → String → Option Url := Url.join?
  /-- Whether two addresses are of one site. -/
  sameSite : Url → Url → Bool := Url.sameSite
  /-- The direction of a character, if it is a strong one. -/
  strong : Char → Option TextDirection := Text.strong?

namespace Readers

variable (readers : Readers)

/-- Reads a pattern that a whole value has to fill. The ends of the value are tested by what is
written around the text, so a text whose parentheses close what they did not open may still be a
pattern. -/
def filling? (text : String) : Option PatternTest :=
  readers.pattern ("^(?:" ++ text ++ ")$")

/-- Whether two addresses are the same place of the same site. -/
def samePlace (u v : Url) : Bool :=
  readers.sameSite u v && u.path == v.path

end Readers

end Selectors

import Selectors.Text.Ascii

/-!
# Mail addresses

An address is a local part, an at sign and a domain of labels between points. The grammar is that of
documents, which is stricter than mail itself.

* `Email.isValid` is the check.
-/

namespace Selectors.Email

def isLetterOrDigit (c : Char) : Bool :=
  c.isAlpha || c.isDigit

/-- The signs that the local part may hold besides letters and digits. -/
def localSigns : List Char :=
  ['.', '!', '#', '$', '%', '&', '\'', '*', '+', '/', '=', '?', '^', '_', '\x60', '\x7b', '|',
    '\x7d', '~', '-']

def isLocalPart (s : List Char) : Bool :=
  !s.isEmpty && s.all fun c => isLetterOrDigit c || localSigns.contains c

/-- A label has 1 to 63 letters, digits and hyphens, and no hyphen at its ends. -/
def isLabel (s : List Char) : Bool :=
  1 ≤ s.length && s.length ≤ 63 && s.all (fun c => isLetterOrDigit c || c == '-')
    && s.head? != some '-' && s.getLast? != some '-'

/-- Whether a text is an address. The first at sign is the one that counts. -/
def isValid (s : String) : Bool :=
  match Text.cutAt? (· == '@') s.toList with
  | none => false
  | some (name, domain) => isLocalPart name && (Text.pieces (· == '.') domain).all isLabel

end Selectors.Email

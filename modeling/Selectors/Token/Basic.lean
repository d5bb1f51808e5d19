import Selectors.Decimal.Basic
import Selectors.Decimal.Shortest

/-!
# Tokens

A style sheet language is read in two stages, and the first yields tokens: names, numbers, strings,
brackets and single characters. Selectors use the same tokens.

* `Numeral` keeps a number as it is written; `Numeral.integer?` is its whole value, held within 32
  signed bits, and there is none once a point or a power is written.
* `Token` is a kind together with the code points it was read from.
* `sliceOf` gives back the text that a run of tokens covers.
-/

namespace Selectors

/-- A written sign. -/
inductive Sign where
  | plus
  | minus
  deriving DecidableEq, Repr

/-- The least and the greatest whole number that a numeral can stand for. -/
def clampInteger (n : Int) : Int :=
  max (-2147483648) (min n 2147483647)

/-- The whole number that a text writes. A text that is none stands for the limit on the side of its
sign. -/
def clampText (s : List Char) : Int :=
  match Decimal.integer? s with
  | some n => clampInteger n
  | none => if s.head? = some '-' then -2147483648 else 2147483647

/-- A number as written: its sign, its digits without the point, how many of them stand after the
point, and the power of ten, if one is written. -/
structure Numeral where
  sign : Option Sign
  digits : Nat
  places : Nat
  exponent : Option Int
  deriving DecidableEq, Repr

namespace Numeral

def negative (n : Numeral) : Bool :=
  n.sign == some .minus

/-- Whether the number was written with a sign, which tells `+1` from `1` in a formula. -/
def signed (n : Numeral) : Bool :=
  n.sign.isSome

/-- Written without a point and without a power. -/
def isInteger (n : Numeral) : Bool :=
  n.places == 0 && n.exponent.isNone

/-- The whole value, held within the limits. -/
def integer? (n : Numeral) : Option Int :=
  if n.isInteger then
    some (clampInteger (if n.negative then -n.digits else n.digits))
  else
    none

/-- The exact value. -/
def toDecimal (n : Numeral) : Decimal :=
  { negative := n.negative, digits := n.digits, exponent := n.exponent.getD 0 - n.places }

/-- The nearest double, in the fewest digits. -/
def text (n : Numeral) : String :=
  Decimal.text n.toDecimal.toFloat

end Numeral

/-- Whether what follows a hash sign could start a name. -/
inductive HashFlag where
  | id
  | unrestricted
  deriving DecidableEq, Repr

/-- What a token is. -/
inductive TokenKind where
  | ident (name : String)
  /-- A name with the parenthesis that opens its arguments. -/
  | function (name : String)
  | atKeyword (name : String)
  | hash (value : String) (flag : HashFlag)
  | string (value : String)
  | badString
  | url (value : String)
  | badUrl
  | delim (c : Char)
  | number (value : Numeral)
  | percentage (value : Numeral)
  | dimension (value : Numeral) (unit : String)
  | whitespace
  | cdo
  | cdc
  | colon
  | semicolon
  | comma
  | leftBracket
  | rightBracket
  | leftParen
  | rightParen
  | leftBrace
  | rightBrace
  deriving DecidableEq, Repr

namespace TokenKind

/-- A name and an open parenthesis both await a closing one. -/
def opensParen : TokenKind → Bool
  | function _ | leftParen => true
  | _ => false

/-- The token in angle brackets, as a reader of a token list wants to see it. -/
def display : TokenKind → String
  | ident v => "<ident:" ++ v ++ ">"
  | function v => "<function:" ++ v ++ "(>"
  | atKeyword v => "<at-keyword:@" ++ v ++ ">"
  | hash v .id => "<hash:#" ++ v ++ " (id)>"
  | hash v .unrestricted => "<hash:#" ++ v ++ " (unrestricted)>"
  | string v => "<string:\"" ++ v ++ "\">"
  | badString => "<bad-string>"
  | url v => "<url:" ++ v ++ ">"
  | badUrl => "<bad-url>"
  | delim c => "<delim:" ++ c.toString ++ ">"
  | number n => "<number:" ++ n.text ++ ">"
  | percentage n => "<percentage:" ++ n.text ++ "%>"
  | dimension n u => "<dimension:" ++ n.text ++ u ++ ">"
  | whitespace => "<whitespace>"
  | cdo => "<CDO>"
  | cdc => "<CDC>"
  | colon => "<colon>"
  | semicolon => "<semicolon>"
  | comma => "<comma>"
  | leftBracket => "<[>"
  | rightBracket => "<]>"
  | leftParen => "<(>"
  | rightParen => "<)>"
  | leftBrace => "<\x7b>"
  | rightBrace => "<\x7d>"

end TokenKind

/-- A token and the code points it was read from: those at `start` and after, before `stop`. -/
structure Token where
  kind : TokenKind
  start : Nat
  stop : Nat
  deriving DecidableEq, Repr

namespace Token

def isWhitespace (t : Token) : Bool :=
  t.kind == .whitespace

/-- The run without the whitespace tokens at its two ends. -/
def trim (ts : List Token) : List Token :=
  ((ts.dropWhile isWhitespace).reverse.dropWhile isWhitespace).reverse

/-- The members between the commas that stand outside all brackets, where `depth` brackets are open
before the run. -/
def splitFrom : Nat → List Token → List (List Token)
  | _, [] => [[]]
  | depth, t :: ts =>
    match t.kind, depth with
    | .comma, 0 => [] :: splitFrom 0 ts
    | kind, depth =>
      let depth :=
        match kind with
        | .function _ | .leftParen | .leftBracket => depth + 1
        | .rightParen | .rightBracket => depth - 1
        | _ => depth
      match splitFrom depth ts with
      | [] => [[t]]
      | m :: ms => (t :: m) :: ms

/-- The members of a comma-separated list; a run without a comma is its only member. -/
def splitList (ts : List Token) : List (List Token) :=
  splitFrom 0 ts

theorem splitFrom_ne_nil (depth : Nat) (ts : List Token) : splitFrom depth ts ≠ [] := by
  cases ts with
  | nil => simp [splitFrom]
  | cons t ts =>
    unfold splitFrom
    split
    · simp
    · simp only
      split <;> simp

end Token

/-- The text between two offsets. -/
def slice (source : List Char) (start stop : Nat) : String :=
  String.ofList ((source.drop start).take (stop - start))

/-- The text from the first token's start to the last token's end. -/
def sliceOf (source : List Char) (ts : List Token) : String :=
  match ts.head?, ts.getLast? with
  | some first, some last => slice source first.start last.stop
  | _, _ => ""

end Selectors

import Selectors.Error
import Selectors.Token.Lexer

/-!
# Tokens that can stand in a selector

Before a selector is parsed, its tokens are checked once: none may be of a kind that no selector
has, and no bracket may close another than the one opened last. Brackets left open at the end are
closed there.

* `Bracket` is what an opening token waits for.
* `balanced` is the check.
* `TokenStream.ofText` reads a text and checks it; `TokenStream.read` reads without the check.
-/

namespace Selectors

/-- The two pairs of brackets that a selector may hold. -/
inductive Bracket where
  | round
  | square
  deriving DecidableEq, Repr

namespace TokenKind

/-- The bracket that a token opens. -/
def opens? : TokenKind → Option Bracket
  | function _ | leftParen => some .round
  | leftBracket => some .square
  | _ => none

/-- The bracket that a token closes. -/
def closes? : TokenKind → Option Bracket
  | rightParen => some .round
  | rightBracket => some .square
  | _ => none

/-- The kinds that no selector holds: what was spoilt, and what belongs to rules and blocks. -/
def forbidden : TokenKind → Bool
  | badString | badUrl | atKeyword _ | cdo | cdc | semicolon | leftBrace | rightBrace => true
  | delim c => c == '\\'
  | _ => false

end TokenKind

namespace Token

/-- Whether every token may stand in a selector and every closing bracket fits, where `stack` holds
the brackets open before the run, the innermost first. -/
def balanced : List Bracket → List Token → Bool
  | _, [] => true
  | stack, t :: ts =>
    if t.kind.forbidden then
      false
    else
      match t.kind.opens?, t.kind.closes? with
      | some b, _ => balanced (b :: stack) ts
      | none, none => balanced stack ts
      | none, some b =>
        match stack with
        | top :: stack => top == b && balanced stack ts
        | [] => false

end Token

/-- A normalised text and its tokens. -/
structure TokenStream where
  source : List Char
  tokens : List Token
  deriving DecidableEq, Repr

namespace TokenStream

/-- Reads any text. -/
def read (text : String) : TokenStream :=
  let source := Token.normalize text.toList
  { source, tokens := Token.lex source }

/-- Reads a text whose tokens can all stand in a selector; otherwise the whole text is blamed. -/
def ofText (text : String) : Except SelectorError TokenStream :=
  let stream := read text
  if Token.balanced [] stream.tokens then
    .ok stream
  else
    .error (.invalidToken text)

/-- The source text of a run of tokens. -/
def textOf (s : TokenStream) (ts : List Token) : String :=
  sliceOf s.source ts

end TokenStream

end Selectors

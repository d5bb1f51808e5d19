import Selectors.Token.Basic

/-!
# Formulas for indexes

`An+B` picks every `A`-th member of a list, starting from the `B`-th. It is written over tokens, so
`2n+1` is a dimension and a signed number, while `2n + 1` has a sign between the two.

* `AnB.includes` holds of a position exactly when it is `a · n + b` for some `n ≥ 0`.
* `AnB.ofTokens?` reads a formula that fills a run of tokens, whitespace around it aside.
-/

namespace Selectors

/-- The positions `a · n + b` with `n ≥ 0`. -/
structure AnB where
  a : Int
  b : Int
  deriving DecidableEq, Repr

namespace AnB

/-- Whether the position is one of the formula's: the step divides its distance from the offset, and
not backwards. -/
def includes (f : AnB) (position : Int) : Bool :=
  let distance := position - f.b
  if f.a = 0 then distance == 0 else distance.tmod f.a == 0 && 0 ≤ distance.tdiv f.a

def skipSpace (ts : List TokenKind) : List TokenKind :=
  ts.dropWhile (· == .whitespace)

/-- A whole number without a sign. -/
def signless? : List TokenKind → Option (Int × List TokenKind)
  | .number n :: r => if n.signed then none else n.integer?.map fun b => (b, r)
  | _ => none

/-- The offset after a coefficient: nothing, a number with its sign, or a sign and a number. -/
def offset? (ts : List TokenKind) : Option (Int × List TokenKind) :=
  match skipSpace ts with
  | [] => some (0, [])
  | .number n :: r => if n.signed then n.integer?.map fun b => (b, r) else none
  | .delim '+' :: r => signless? (skipSpace r)
  | .delim '-' :: r => (signless? (skipSpace r)).map fun (b, r) => (-b, r)
  | _ => none

/-- What follows the coefficient `a`: a letter `n`, and the offset in one of three spellings. In the
unit itself stand `n`, or `n-` with the digits in a token of their own, or `n-` and digits. -/
def afterCoefficient? (a : Int) (unit : List Char) (ts : List TokenKind) :
    Option (AnB × List TokenKind) :=
  match unit with
  | ['n'] => (offset? ts).map fun (b, r) => (⟨a, b⟩, r)
  | ['n', '-'] => (signless? (skipSpace ts)).map fun (b, r) => (⟨a, -b⟩, r)
  | 'n' :: '-' :: digits =>
    if digits.all Char.isDigit then some (⟨a, -clampText digits⟩, ts) else none
  | _ => none

/-- A formula that starts with a name: a keyword, or a letter `n` with at most a minus before it. -/
def ofName? (name : List Char) (ts : List TokenKind) : Option (AnB × List TokenKind) :=
  if name = "odd".toList then some (⟨2, 1⟩, ts)
  else if name = "even".toList then some (⟨2, 0⟩, ts)
  else
    match name with
    | '-' :: unit => afterCoefficient? (-1) unit ts
    | unit => afterCoefficient? 1 unit ts

/-- The formula at the front of a run. -/
def read? : List TokenKind → Option (AnB × List TokenKind)
  | .ident name :: r => ofName? (Text.lower name).toList r
  | .number n :: r => n.integer?.map fun b => (⟨0, b⟩, r)
  | .dimension n unit :: r =>
    n.integer?.bind fun a => afterCoefficient? a (Text.lower unit).toList r
  | .delim '+' :: .ident name :: r => afterCoefficient? 1 (Text.lower name).toList r
  | _ => none

/-- The formula that fills a run of tokens, whitespace around it aside. -/
def ofTokens? (ts : List Token) : Option AnB :=
  match read? (skipSpace (ts.map Token.kind)) with
  | some (f, r) => if skipSpace r = [] then some f else none
  | none => none

end AnB

end Selectors

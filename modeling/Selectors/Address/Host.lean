import Selectors.Address.Punycode
import Selectors.Text.Ascii
import Selectors.Text.Case

/-!
# Hosts

The host of an address is a domain name, an IPv4 address in one of its many spellings, or an IPv6
address between brackets. Two spellings of one host are equal once they are read.

* `Host.ofText?` reads the host of an address whose scheme knows hosts, `Host.ofUnknown?` that of
  any other address.
-/

namespace Selectors

inductive Host where
  | domain (name : String)
  | ipv4 (address : Nat)
  /-- The eight pieces of the address. -/
  | ipv6 (pieces : List Nat)
  deriving DecidableEq, Repr

namespace Host

def isHexDigit (c : Char) : Bool :=
  c.isDigit || ('a' ≤ c && c ≤ 'f') || ('A' ≤ c && c ≤ 'F')

def hexValue (c : Char) : Nat :=
  if c.isDigit then c.toNat - '0'.toNat else c.toLower.toNat - 'a'.toNat + 10

def valueIn (base : Nat) (s : List Char) : Nat :=
  s.foldl (fun n c => base * n + hexValue c) 0

/-! ### IPv4 -/

/-- A part of an IPv4 address: decimal, octal after a zero, hexadecimal after `0x`. -/
def partOfIpv4? (s : List Char) : Option Nat :=
  match s with
  | [] => none
  | '0' :: c :: r =>
    if c == 'x' || c == 'X' then
      if r.all isHexDigit then some (valueIn 16 r) else none
    else if (c :: r).all fun d => '0' ≤ d && d ≤ '7' then some (valueIn 8 (c :: r))
    else none
  | s => if s.all Char.isDigit then some (valueIn 10 s) else none

/-- The parts between points, without the empty one after a last point. -/
def pointParts (s : List Char) : List (List Char) :=
  let parts := Text.pieces (· == '.') s
  if parts.getLast? = some [] && 1 < parts.length then parts.dropLast else parts

/-- Whether a domain ends in a part that only an IPv4 address may end in. -/
def endsInNumber (s : List Char) : Bool :=
  match (pointParts s).getLast? with
  | some last => (!last.isEmpty && last.all Char.isDigit) || (partOfIpv4? last).isSome
  | none => false

/-- The address that up to four parts write: each but the last fills one byte, the last the rest. -/
def ipv4? (s : List Char) : Option Nat := do
  let numbers ← (pointParts s).mapM partOfIpv4?
  let last ← numbers.getLast?
  let before := numbers.dropLast
  if 3 < before.length || before.any (255 < ·) || Nat.pow 256 (4 - before.length) ≤ last then
    none
  return before.foldl (fun n b => 256 * n + b) 0 * Nat.pow 256 (4 - before.length) + last

/-! ### IPv6 -/

/-- The two pieces that four decimal bytes fill. -/
def bytePieces? (s : List Char) : Option (List Nat) := do
  let parts := Text.pieces (· == '.') s
  let bytes ← parts.mapM fun p =>
    if p.isEmpty || !p.all Char.isDigit || (p.head? = some '0' && 1 < p.length) then none
    else
      let n := valueIn 10 p
      if n ≤ 255 then some n else none
  match bytes with
  | [a, b, c, d] => some [256 * a + b, 256 * c + d]
  | _ => none

/-- The pieces between colons; the last may be four decimal bytes if `end_` says that the address
ends with it. -/
def colonPieces? (end_ : Bool) : List (List Char) → Option (List Nat)
  | [] => some []
  | [p] =>
    if end_ && p.contains '.' then bytePieces? p else (hexPiece? p).map ([·])
  | p :: ps => do return (← hexPiece? p) :: (← colonPieces? end_ ps)
where
  hexPiece? (p : List Char) : Option Nat :=
    if p.isEmpty || 4 < p.length || !p.all isHexDigit then none else some (valueIn 16 p)

/-- The pieces of one side of the double colon, which may be empty. -/
def sidePieces? (end_ : Bool) (s : List Char) : Option (List Nat) :=
  if s.isEmpty then some [] else colonPieces? end_ (Text.pieces (· == ':') s)

/-- What stands before and after the first double colon. -/
def cutAtDouble? : List Char → Option (List Char × List Char)
  | ':' :: ':' :: r => some ([], r)
  | c :: r => (cutAtDouble? r).map fun (before, after) => (c :: before, after)
  | [] => none

/-- The eight pieces of an address. A double colon stands for the zeros that are missing. -/
def ipv6? (s : List Char) : Option (List Nat) :=
  match cutAtDouble? s with
  | none => (colonPieces? true (Text.pieces (· == ':') s)).filter (·.length == 8)
  | some (before, after) => do
    let front ← sidePieces? false before
    let back ← sidePieces? true after
    if 7 < front.length + back.length then
      none
    return front ++ List.replicate (8 - front.length - back.length) 0 ++ back

/-! ### Domains -/

/-- The bytes that a text stands for, where a percent sign and two digits give a byte by number. -/
def percentDecode : List Char → List UInt8
  | '%' :: a :: b :: r =>
    if isHexDigit a && isHexDigit b then (16 * hexValue a + hexValue b).toUInt8 :: percentDecode r
    else '%'.toNat.toUInt8 :: percentDecode (a :: b :: r)
  | c :: r => c.toString.toUTF8.toList ++ percentDecode r
  | [] => []

/-- Signs that a domain may not hold. -/
def forbidsInDomain (c : Char) : Bool :=
  c.toNat ≤ 0x20 || c.toNat == 0x7F
    || ['%', '#', '/', ':', '<', '>', '?', '@', '[', '\\', ']', '^', '|'].contains c

/-- Signs that the host of an unknown scheme may not hold. -/
def forbidsInUnknown (c : Char) : Bool :=
  ['\x00', '\t', '\n', '\r', ' ', '#', '/', ':', '<', '>', '?', '@', '[', '\\', ']', '^',
    '|'].contains c

/-- Characters that are left out of a name. -/
def isIgnored (n : Nat) : Bool :=
  n == 0xAD || n == 0x200B || n == 0x2060 || n == 0xFEFF || (0xFE00 ≤ n && n ≤ 0xFE0F)

/-- Characters outside ASCII that no name may hold: controls, blanks, marks of direction, private
and replaced characters. -/
def isRefused (n : Nat) : Bool :=
  (0x80 ≤ n && n ≤ 0xA0) || n == 0x1680 || (0x2000 ≤ n && n ≤ 0x200F) || (0x2028 ≤ n && n ≤ 0x202F)
    || n == 0x205F || (0x2061 ≤ n && n ≤ 0x206F) || n == 0x3000 || (0xE000 ≤ n && n ≤ 0xF8FF)
    || (0xFDD0 ≤ n && n ≤ 0xFDEF) || (0xFFF0 ≤ n && n ≤ 0xFFFF) || 0xE0000 ≤ n

/-- What a character of a name is read as. The final form of the small sigma stays. -/
def foldChar? (c : Char) : Option (List Char) :=
  let n := c.toNat
  if n < 128 then some [c.toLower]
  else if isIgnored n then some []
  else if n == 0x3002 || n == 0xFF0E || n == 0xFF61 then some ['.']
  else if 0xFF01 ≤ n && n ≤ 0xFF5E then some [(Char.ofNat (n - 0xFEE0)).toLower]
  else if isRefused n then none
  else if c = 'ς' then some [c]
  else some [Text.fold c]

/-- Whether a character of a name is read as itself. -/
def isFolded (c : Char) : Bool :=
  foldChar? c == some [c]

/-- The ASCII form of a label. A label that already has the mark of one has to be one. -/
def asciiLabel? (s : List Char) : Option (List Char) :=
  match Text.dropLead? "xn--".toList s with
  | some code =>
    match Punycode.decode? code with
    | some label =>
      if label.all Text.isAscii || !label.all isFolded || !s.all Text.isAscii then none
      else if Punycode.encode label = code then some s else none
    | none => none
  | none => if s.all Text.isAscii then some s else some ("xn--".toList ++ Punycode.encode s)

/-- The ASCII form of a domain name. -/
def domain? (s : List Char) : Option (List Char) := do
  let text ← String.fromUTF8? ⟨(percentDecode s).toArray⟩
  let folded ← text.toList.mapM foldChar?
  let labels ← (Text.pieces (· == '.') folded.flatten).mapM asciiLabel?
  let name := ['.'].intercalate labels
  if name.isEmpty || name.any forbidsInDomain then none else some name

/-! ### Reading hosts -/

/-- An IPv6 address between brackets, the first of which is read. -/
def bracketed? (s : List Char) : Option Host :=
  if s.getLast? = some ']' then (ipv6? s.dropLast).map ipv6 else none

/-- The host of an address whose scheme knows hosts. -/
def ofText? (s : List Char) : Option Host :=
  match s with
  | '[' :: r => bracketed? r
  | s => do
    let name ← domain? s
    if endsInNumber name then (ipv4? name).map ipv4 else some (domain (String.ofList name))

/-- The host of any other address, which is taken as written. -/
def ofUnknown? (s : List Char) : Option Host :=
  match s with
  | '[' :: r => bracketed? r
  | s => if s.any forbidsInUnknown then none else some (domain (String.ofList s))

end Host

end Selectors

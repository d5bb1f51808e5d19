import Selectors.Address.Host

/-!
# Addresses

An address is read in one pass: a scheme, then, depending on it, a host with the number of a service
and a path, or a path alone, and last a query and a fragment. A reference without a scheme is
completed by a base.

* `Url.ofText?` reads an address that stands for itself, `Url.join?` one that may need a base.
* `Url.origin?` is what two addresses of one site share; many schemes have none.
-/

namespace Selectors

/-- How the rest of an address is read depends on what its scheme is known for. -/
inductive SchemeKind where
  /-- Local files. -/
  | file
  /-- Schemes that always have a host. -/
  | web
  | other
  deriving DecidableEq, Repr

/-- The parts of an address by which links are compared, and those that completing a reference
needs. Paths and fragments are kept in their encoded form. -/
structure Url where
  scheme : String
  host : Option Host := none
  /-- The number of the service at the host, unless it is the usual one of the scheme. -/
  service : Option Nat := none
  path : String := ""
  /-- Whether the path is no row of segments, so that nothing can be completed from it. -/
  rootless : Bool := false
  fragment : Option String := none
  deriving DecidableEq, Repr

namespace Url

def kindOf (scheme : String) : SchemeKind :=
  if scheme == "file" then .file
  else if ["http", "https", "ws", "wss", "ftp"].contains scheme then .web
  else .other

/-- The number of the service that a scheme uses where none is written. -/
def usualService? (scheme : String) : Option Nat :=
  match scheme with
  | "http" | "ws" => some 80
  | "https" | "wss" => some 443
  | "ftp" => some 21
  | _ => none

/-! ### Characters -/

/-- The text as it is read: without control characters and spaces at its ends, and without tabs and
line ends anywhere. -/
def clean (s : String) : List Char :=
  let outer := fun (c : Char) => c.toNat ≤ 0x20
  let trimmed := ((s.toList.dropWhile outer).reverse.dropWhile outer).reverse
  trimmed.filter fun c => c != '\t' && c != '\n' && c != '\r'

def hexDigit (n : Nat) : Char :=
  Char.ofNat (if n < 10 then '0'.toNat + n else 'A'.toNat + (n - 10))

/-- A percent sign and two digits for each byte of a character. -/
def percent (c : Char) : List Char :=
  c.toString.toUTF8.toList.flatMap fun b => ['%', hexDigit (b.toNat / 16), hexDigit (b.toNat % 16)]

/-- Control characters and what is not ASCII. -/
def isControl (c : Char) : Bool :=
  c.toNat ≤ 0x1F || 0x7F ≤ c.toNat

/-- The text with every character that satisfies `p` written by its bytes. -/
def encode (p : Char → Bool) (s : List Char) : List Char :=
  s.flatMap fun c => if p c then percent c else [c]

def encodedInFragment (c : Char) : Bool :=
  isControl c || [' ', '"', '<', '>', '\x60'].contains c

def encodedInPath (c : Char) : Bool :=
  encodedInFragment c || ['#', '?', '\x7b', '\x7d'].contains c

/-! ### Parts -/

/-- What separates the segments of a path; a backslash does in known schemes. -/
def isSlash (kind : SchemeKind) (c : Char) : Bool :=
  c == '/' || (c == '\\' && kind != .other)

/-- What ends the part of an address that names the host. -/
def endsAuthority (kind : SchemeKind) (c : Char) : Bool :=
  isSlash kind c || c == '?' || c == '#'

/-- What ends a path. -/
def endsPath (c : Char) : Bool :=
  c == '?' || c == '#'

/-- The scheme before the first colon, in small letters, and the rest. -/
def scheme? (s : List Char) : Option (String × List Char) :=
  match Text.cutAt? (· == ':') s with
  | some (name, rest) =>
    if name.head?.any Char.isAlpha
        && name.all fun c => c.isAlpha || c.isDigit || c == '+' || c == '-' || c == '.' then
      some (Text.lower (String.ofList name), rest)
    else none
  | none => none

/-- The fragment, if the rest of an address has one. -/
def fragmentOf (s : List Char) : Option String :=
  match s.dropWhile (· != '#') with
  | _ :: r => some (String.ofList (encode encodedInFragment r))
  | [] => none

/-- The names of the segment that stands for the one above. -/
def doubleDots : List String :=
  ["..", ".%2e", "%2e.", "%2e%2e"]

def singleDots : List String :=
  [".", "%2e"]

/-- Adds segments to a path that is kept in reverse. A segment of one dot adds nothing, one of two
dots takes the last segment away, and at the end either leaves an empty segment. -/
def addSegments (path : List (List Char)) : List (List Char) → List (List Char)
  | [] => path
  | s :: more =>
    let name := Text.lower (String.ofList s)
    let last := more.isEmpty
    let path :=
      if doubleDots.contains name then (if last then [] :: path.drop 1 else path.drop 1)
      else if singleDots.contains name then (if last then [] :: path else path)
      else encode encodedInPath s :: path
    addSegments path more

/-- The text of a path that is kept in reverse. -/
def pathText (path : List (List Char)) : String :=
  String.ofList (path.reverse.flatMap ('/' :: ·))

/-- The segments of a path, without the slash at its front. -/
def segments (kind : SchemeKind) (s : List Char) : List (List Char) :=
  Text.pieces (isSlash kind) s

/-- The text of the path that starts a rest of an address, after its first slash. -/
def readPath (kind : SchemeKind) (above : List (List Char)) (s : List Char) : String :=
  pathText (addSegments above (segments kind (s.takeWhile fun c => !endsPath c)))

/-- Drops one slash at the front. -/
def dropSlash (kind : SchemeKind) : List Char → List Char
  | c :: r => if isSlash kind c then r else c :: r
  | [] => []

/-! ### Host and service -/

/-- The text of the host up to the colon before the service, which does not stand between brackets.
-/
def takeHost (inside : Bool) : List Char → List Char × List Char
  | [] => ([], [])
  | c :: r =>
    if c == ':' && !inside then ([], c :: r)
    else
      let inside := if c == '[' then true else if c == ']' then false else inside
      let (host, rest) := takeHost inside r
      (c :: host, rest)

/-- The number of the service after a colon. It is left out if it is empty or the usual one. -/
def service? (scheme : String) (digits : List Char) : Option (Option Nat) :=
  if !digits.all Char.isDigit then none
  else
    let n := Text.natOfDigits digits
    if 65535 < n then none
    else if digits.isEmpty || usualService? scheme = some n then some none
    else some (some n)

/-- What stands before the last at sign, and what stands after it. -/
def cutAtLastAt (s : List Char) : Option (List Char) × List Char :=
  let back := s.reverse
  let after := (back.takeWhile (· != '@')).reverse
  match back.dropWhile (· != '@') with
  | _ :: before => (some before.reverse, after)
  | [] => (none, after)

/-- The host and the service of an address. Known schemes need a host; others need one only beside a
service or a name of a user. -/
def authority? (scheme : String) (s : List Char) : Option (Option Host × Option Nat) := do
  let known := kindOf scheme != .other
  let (user, s) := cutAtLastAt s
  let (hostText, rest) := takeHost false s
  if hostText.isEmpty then
    let named := user.any fun u => !u.isEmpty && u != [':']
    if known || named || !rest.isEmpty then none else some (none, none)
  else
    let host ← if known then Host.ofText? hostText else Host.ofUnknown? hostText
    let service ← service? scheme (rest.drop 1)
    return (some host, service)

/-- Whether a user's name is missing before an at sign that nothing follows. -/
def lonelyAt (auth rest : List Char) : Bool :=
  auth == ['@'] && !rest.isEmpty

/-- An address from behind its double slash. -/
def afterSlashes? (scheme : String) (s : List Char) : Option Url := do
  let kind := kindOf scheme
  let auth := s.takeWhile fun c => !endsAuthority kind c
  let rest := s.dropWhile fun c => !endsAuthority kind c
  if lonelyAt auth rest then
    none
  let (host, service) ← authority? scheme auth
  let path :=
    if kind == .other && (rest.isEmpty || rest.head?.any endsPath) then ""
    else readPath kind [] (dropSlash kind rest)
  return { scheme, host, service, path, fragment := fragmentOf rest }

/-! ### Whole addresses -/

/-- A letter and a colon or bar name a drive, not a host. -/
def isDrive (s : List Char) : Bool :=
  match s with
  | [c, d] => c.isAlpha && (d == ':' || d == '|')
  | _ => false

/-- The address of a file. It has a host only after two slashes. -/
def file? (s : List Char) : Option Url := do
  let kind := SchemeKind.file
  let slashes := s.takeWhile (isSlash kind)
  if slashes.length < 2 then
    return { scheme := "file", path := readPath kind [] (dropSlash kind s)
             fragment := fragmentOf s }
  let s := s.drop 2
  let name := s.takeWhile fun c => !endsAuthority kind c
  let rest := s.dropWhile fun c => !endsAuthority kind c
  if isDrive name then
    return { scheme := "file", path := readPath kind [] s, fragment := fragmentOf rest }
  let host ← if name.isEmpty then some none else (Host.ofText? name).map some
  return { scheme := "file", host := host.filter (· ≠ .domain "localhost"),
           path := readPath kind [] (dropSlash kind rest), fragment := fragmentOf rest }

/-- An address whose scheme is not known. -/
def unknown? (scheme : String) (s : List Char) : Option Url :=
  match s with
  | '/' :: '/' :: r => afterSlashes? scheme r
  | '/' :: r => some { scheme, path := readPath .other [] r, fragment := fragmentOf r }
  | s =>
    let path := String.ofList (encode isControl (s.takeWhile fun c => !endsPath c))
    some { scheme, path, rootless := true, fragment := fragmentOf s }

/-- An address with its scheme read. -/
def withScheme? (scheme : String) (s : List Char) : Option Url :=
  match kindOf scheme with
  | .file => file? s
  | .web => afterSlashes? scheme (s.dropWhile (isSlash .web))
  | .other => unknown? scheme s

/-- Reads an address that stands for itself. -/
def ofText? (s : String) : Option Url := do
  let (scheme, rest) ← scheme? (clean s)
  withScheme? scheme rest

/-- The segments of a path that starts with a slash, in reverse. -/
def segmentsOfPath (path : String) : List (List Char) :=
  (Text.pieces (· == '/') (path.toList.drop 1)).reverse

/-- Completes a reference that has no scheme of its own. -/
def complete? (base : Url) (s : List Char) : Option Url :=
  let kind := kindOf base.scheme
  match s with
  | [] => some { base with fragment := none }
  | '#' :: _ => some { base with fragment := fragmentOf s }
  | '?' :: _ => some { base with fragment := fragmentOf s }
  | c :: r =>
    if isSlash kind c then
      if r.head?.any (isSlash kind) then
        afterSlashes? base.scheme
          ((Text.dropLead? ['/', '/'] s).getD (s.dropWhile (isSlash kind)))
      else
        some { base with path := readPath kind [] r, fragment := fragmentOf s }
    else
      some { base with path := readPath kind ((segmentsOfPath base.path).drop 1) s
                       fragment := fragmentOf s }

/-- Reads an address that a base may complete. A base without segments completes fragments only, and
a known scheme that is the base's own, without two slashes after it, is as if it were not written.
-/
def join? (base : Url) (text : String) : Option Url :=
  let s := clean text
  match scheme? s with
  | some (scheme, rest) =>
    if kindOf scheme = .web && scheme = base.scheme
        && (rest.takeWhile (isSlash .web)).length < 2 then
      complete? base rest
    else
      withScheme? scheme rest
  | none =>
    if base.rootless then
      if s.head? = some '#' then some { base with fragment := fragmentOf s } else none
    else
      complete? base s

/-! ### Origins -/

/-- What addresses of one site share. -/
structure Origin where
  scheme : String
  host : Option Host
  service : Option Nat
  deriving DecidableEq, Repr

/-- The origin of an address, or of the address in the path of a `blob` one, at most `depth` deep.
-/
def originWithin : Nat → Url → Option Origin
  | 0, _ => none
  | depth + 1, u =>
    if kindOf u.scheme = .web then
      some { scheme := u.scheme, host := u.host, service := u.service }
    else if u.scheme = "blob" then
      (ofText? u.path).bind (originWithin depth)
    else
      none

/-- The origin of an address; none is equal to that of no other address. -/
def origin? (u : Url) : Option Origin :=
  originWithin (u.path.length + 1) u

/-- Whether two addresses have one origin. -/
def sameSite (u v : Url) : Bool :=
  match u.origin?, v.origin? with
  | some a, some b => a == b
  | _, _ => false

end Url

end Selectors

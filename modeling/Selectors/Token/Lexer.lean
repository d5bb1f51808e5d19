import Selectors.Token.Basic

/-!
# Reading tokens

The text is first normalised, so that a line ends in one way only and no zero code point is left.
Then comments are skipped and the longest token at the front is taken, until nothing is left. Every
reader returns what it read and the rest of the text.

* `takeEscape`, `takeName`, `takeString`, `takeUrl`, `takeNumeral` read the parts of tokens.
* `scan` reads one token from its first character on, and `scan_suffix` says that what it leaves is
  a suffix of what stood after that character. So each token takes at least one character, and
  `lexFrom` ends.
* `lex` gives the tokens of a text with their places.
-/

namespace Selectors.Token

/-- One line feed for each way to end a line, and the replacement character for a zero. -/
def normalize : List Char → List Char
  | [] => []
  | '\r' :: '\n' :: r => '\n' :: normalize r
  | c :: r =>
    (if c == '\r' || c == '\x0c' then '\n' else if c == '\x00' then '\ufffd' else c) :: normalize r

/-- Blanks of the language, once line ends are normalised. -/
def isBlank (c : Char) : Bool :=
  c == '\n' || c == '\t' || c == ' '

/-- A letter, a low line or any character outside ASCII starts a name. -/
def startsName (c : Char) : Bool :=
  c.isAlpha || c == '_' || !Text.isAscii c

/-- Digits and hyphens may go on a name. -/
def continuesName (c : Char) : Bool :=
  startsName c || c.isDigit || c == '-'

/-- Control characters, which end an unquoted address. -/
def isNonPrintable (c : Char) : Bool :=
  c.toNat ≤ 0x08 || c == '\x0b' || (0x0E ≤ c.toNat && c.toNat ≤ 0x1F) || c == '\x7f'

def isHexDigit (c : Char) : Bool :=
  c.isDigit || ('a' ≤ c && c ≤ 'f') || ('A' ≤ c && c ≤ 'F')

def hexValue (c : Char) : Nat :=
  if c.isDigit then c.toNat - '0'.toNat else c.toLower.toNat - 'a'.toNat + 10

/-- The character with the number that the digits write. Zero, surrogates and numbers beyond the
last character give the replacement character. -/
def charOfHex (digits : List Char) : Char :=
  let c := Char.ofNat (digits.foldl (fun n d => 16 * n + hexValue d) 0)
  if c == '\x00' then '\ufffd' else c

/-! ### Escapes and names -/

/-- Whether a backslash before `r` escapes something: all but a line end, also the end of the text.
-/
def escapes (r : List Char) : Bool :=
  r.head? != some '\n'

/-- Drops one blank, which ends a numeric escape. -/
def dropBlank : List Char → List Char
  | [] => []
  | c :: r => if isBlank c then r else c :: r

/-- The character that is escaped by a backslash before the text: up to six hexadecimal digits and
one blank name it by number, any other character stands for itself. -/
def takeEscape : List Char → Char × List Char
  | [] => ('\ufffd', [])
  | c :: r =>
    if isHexDigit c then
      let more := (r.take 5).takeWhile isHexDigit
      (charOfHex (c :: more), dropBlank (r.drop more.length))
    else
      (c, r)

theorem dropBlank_suffix (s : List Char) : dropBlank s <:+ s := by
  cases s with
  | nil => exact List.suffix_rfl
  | cons c r =>
    simp only [dropBlank]
    split
    · exact List.suffix_cons c r
    · exact List.suffix_rfl

theorem takeEscape_suffix (s : List Char) : (takeEscape s).2 <:+ s := by
  cases s with
  | nil => exact List.suffix_rfl
  | cons c r =>
    simp only [takeEscape]
    split
    · exact ((dropBlank_suffix _).trans (List.drop_suffix _ _)).trans (List.suffix_cons c r)
    · exact List.suffix_cons c r

theorem takeEscape_length (s : List Char) : (takeEscape s).2.length ≤ s.length :=
  (takeEscape_suffix s).length_le

/-- The next character of a name, written as itself or escaped. -/
def nameChar? : List Char → Option (Char × List Char)
  | [] => none
  | c :: r =>
    if continuesName c then some (c, r)
    else if c == '\\' && escapes r then some (takeEscape r)
    else none

theorem nameChar?_suffix {c : Char} {r : List Char} {x : Char × List Char}
    (h : nameChar? (c :: r) = some x) : x.2 <:+ r := by
  simp only [nameChar?] at h
  split at h
  · cases h
    exact List.suffix_rfl
  · split at h
    · cases h
      exact takeEscape_suffix r
    · exact nomatch h

theorem nameChar?_length {s : List Char} {x : Char × List Char} (h : nameChar? s = some x) :
    x.2.length < s.length := by
  cases s with
  | nil => exact nomatch h
  | cons c r => exact Nat.lt_succ_of_le (nameChar?_suffix h).length_le

/-- The longest name at the front of a text. -/
def takeName (s : List Char) : List Char × List Char :=
  match h : nameChar? s with
  | none => ([], s)
  | some x =>
    have := nameChar?_length h
    let (name, rest) := takeName x.2
    (x.1 :: name, rest)
termination_by s.length

theorem takeName_suffix (s : List Char) : (takeName s).2 <:+ s := by
  fun_induction takeName s with
  | case1 => exact List.suffix_rfl
  | case2 s x h _ name rest hr ih =>
    rw [hr] at ih
    cases s with
    | nil => exact nomatch h
    | cons c r => exact (ih.trans (nameChar?_suffix h)).trans (List.suffix_cons c r)

/-- A name that has a first character takes it. -/
theorem takeName_cons_suffix {c : Char} {r : List Char} (h : (nameChar? (c :: r)).isSome) :
    (takeName (c :: r)).2 <:+ r := by
  obtain ⟨x, hx⟩ := Option.isSome_iff_exists.mp h
  rw [takeName]
  split
  · rename_i h0
    rw [h0] at hx
    exact nomatch hx
  · rename_i y hy
    exact (takeName_suffix y.2).trans (nameChar?_suffix hy)

/-- Whether the text starts with a name. After one hyphen a second one, a starting character or an
escape is needed. -/
def atName : List Char → Bool
  | '-' :: r =>
    match r with
    | [] => false
    | c :: t => startsName c || c == '-' || (c == '\\' && escapes t)
  | '\\' :: r => escapes r
  | c :: _ => startsName c
  | [] => false

/-! ### Comments and strings -/

/-- The text after the next end of a comment. -/
def afterComment : List Char → List Char
  | [] => []
  | '*' :: '/' :: r => r
  | _ :: r => afterComment r

theorem afterComment_suffix (s : List Char) : afterComment s <:+ s := by
  fun_induction afterComment s with
  | case1 => exact List.suffix_rfl
  | case2 r => exact (List.suffix_cons _ _).trans (List.suffix_cons _ _)
  | case3 c r _ ih => exact ih.trans (List.suffix_cons _ _)

/-- The text after the comments at its front. -/
def skipComments (s : List Char) : List Char :=
  match s with
  | '/' :: '*' :: r => skipComments (afterComment r)
  | s => s
termination_by s.length
decreasing_by
  have := (afterComment_suffix r).length_le
  simp only [List.length_cons]
  omega

theorem skipComments_suffix (s : List Char) : skipComments s <:+ s := by
  fun_induction skipComments s with
  | case1 r ih =>
    exact ((ih.trans (afterComment_suffix r)).trans (List.suffix_cons _ _)).trans
      (List.suffix_cons _ _)
  | case2 => exact List.suffix_rfl

/-- The text of a string up to its closing quote or the end of the input. A line end spoils it,
unless it is escaped; then it is left out. -/
def takeString (quote : Char) (s : List Char) : Option (List Char) × List Char :=
  match s with
  | [] => (some [], [])
  | c :: r =>
    if c == quote then (some [], r)
    else if c == '\n' then (none, c :: r)
    else if c == '\\' then
      match r with
      | [] => (some [], [])
      | '\n' :: t => takeString quote t
      | d :: t =>
        have := takeEscape_length (d :: t)
        let e := takeEscape (d :: t)
        let (value, rest) := takeString quote e.2
        (value.map (e.1 :: ·), rest)
    else
      let (value, rest) := takeString quote r
      (value.map (c :: ·), rest)
termination_by s.length
decreasing_by all_goals simp_all only [List.length_cons]; omega

theorem takeString_suffix (quote : Char) (s : List Char) : (takeString quote s).2 <:+ s := by
  fun_induction takeString quote s with
  | case1 => exact List.suffix_rfl
  | case2 c r => exact List.suffix_cons c r
  | case3 c r => exact List.suffix_rfl
  | case4 => exact List.nil_suffix
  | case5 c _ _ _ t ih =>
    exact (ih.trans (List.suffix_cons _ _)).trans (List.suffix_cons _ _)
  | case6 c _ _ _ d t _ _ e value rest hv ih =>
    rw [hv] at ih
    exact (ih.trans (takeEscape_suffix (d :: t))).trans (List.suffix_cons _ _)
  | case7 c r _ _ _ value rest hv ih =>
    rw [hv] at ih
    exact ih.trans (List.suffix_cons _ _)

/-! ### Addresses -/

/-- The text after the remnants of a spoilt address. -/
def afterBadUrl (s : List Char) : List Char :=
  match s with
  | [] => []
  | c :: r =>
    if c == ')' then r
    else if c == '\\' && escapes r then
      have := takeEscape_length r
      afterBadUrl (takeEscape r).2
    else afterBadUrl r
termination_by s.length
decreasing_by all_goals simp_all only [List.length_cons]; omega

theorem afterBadUrl_suffix (s : List Char) : afterBadUrl s <:+ s := by
  fun_induction afterBadUrl s with
  | case1 => exact List.suffix_rfl
  | case2 c r => exact List.suffix_cons c r
  | case3 c r _ _ _ ih => exact (ih.trans (takeEscape_suffix r)).trans (List.suffix_cons c r)
  | case4 c r _ _ ih => exact ih.trans (List.suffix_cons c r)

/-- The blanks between an address and its closing parenthesis; anything else spoils the address. -/
def closeUrl (s : List Char) : Bool × List Char :=
  match s.dropWhile isBlank with
  | [] => (true, [])
  | ')' :: r => (true, r)
  | r => (false, afterBadUrl r)

theorem closeUrl_suffix (s : List Char) : (closeUrl s).2 <:+ s := by
  have h := List.dropWhile_suffix (l := s) isBlank
  unfold closeUrl
  split
  · exact List.nil_suffix
  · rename_i r hr
    rw [hr] at h
    exact (List.suffix_cons _ _).trans h
  · exact (afterBadUrl_suffix _).trans h

/-- The text of an unquoted address up to its closing parenthesis or the end of the input. -/
def takeUrl (s : List Char) : Option (List Char) × List Char :=
  match s with
  | [] => (some [], [])
  | c :: r =>
    if c == ')' then (some [], r)
    else if isBlank c then
      let (closed, rest) := closeUrl r
      (if closed then some [] else none, rest)
    else if c == '"' || c == '\'' || c == '(' || isNonPrintable c then (none, afterBadUrl r)
    else if c == '\\' then
      if escapes r then
        have := takeEscape_length r
        let e := takeEscape r
        let (value, rest) := takeUrl e.2
        (value.map (e.1 :: ·), rest)
      else (none, afterBadUrl r)
    else
      let (value, rest) := takeUrl r
      (value.map (c :: ·), rest)
termination_by s.length
decreasing_by all_goals simp_all only [List.length_cons]; omega

theorem takeUrl_suffix (s : List Char) : (takeUrl s).2 <:+ s := by
  fun_induction takeUrl s with
  | case1 => exact List.suffix_rfl
  | case2 c r => exact List.suffix_cons c r
  | case3 c r _ _ closed rest hc =>
    have := closeUrl_suffix r
    rw [hc] at this
    exact this.trans (List.suffix_cons c r)
  | case4 c r => exact (afterBadUrl_suffix r).trans (List.suffix_cons c r)
  | case5 c r _ _ _ _ _ _ e value rest hv ih =>
    rw [hv] at ih
    exact (ih.trans (takeEscape_suffix r)).trans (List.suffix_cons c r)
  | case6 c r => exact (afterBadUrl_suffix r).trans (List.suffix_cons c r)
  | case7 c r _ _ _ _ value rest hv ih =>
    rw [hv] at ih
    exact ih.trans (List.suffix_cons c r)

/-- Leaves one blank of those at the front. -/
def squeezeBlanks : List Char → List Char
  | c :: d :: r => if isBlank c && isBlank d then squeezeBlanks (d :: r) else c :: d :: r
  | s => s

theorem squeezeBlanks_suffix (s : List Char) : squeezeBlanks s <:+ s := by
  fun_induction squeezeBlanks s with
  | case1 c d r _ ih => exact ih.trans (List.suffix_cons _ _)
  | case2 => exact List.suffix_rfl
  | case3 => exact List.suffix_rfl

/-! ### Numbers -/

/-- Whether the text starts with a number: a digit, or a point and a digit, after at most one sign.
-/
def atNumber : List Char → Bool
  | '+' :: r | '-' :: r => atUnsigned r
  | r => atUnsigned r
where
  /-- A digit, or a point before one. -/
  atUnsigned : List Char → Bool
    | '.' :: c :: _ => c.isDigit
    | c :: _ => c.isDigit
    | [] => false

def takeSign : List Char → Option Sign × List Char
  | '+' :: r => (some .plus, r)
  | '-' :: r => (some .minus, r)
  | r => (none, r)

/-- The digits after a point, if a point and a digit come next. -/
def takePlaces : List Char → List Char × List Char
  | '.' :: c :: r =>
    if c.isDigit then ((c :: r).takeWhile Char.isDigit, (c :: r).dropWhile Char.isDigit)
    else ([], '.' :: c :: r)
  | s => ([], s)

/-- A power of ten, if the letter for it, at most one sign and a digit come next. -/
def takePower : List Char → Option Int × List Char
  | [] => (none, [])
  | c :: r =>
    let (sign, t) := takeSign r
    if (c == 'e' || c == 'E') && (t.head?.any Char.isDigit) then
      let n : Int := Text.natOfDigits (t.takeWhile Char.isDigit)
      (some (if sign = some .minus then -n else n), t.dropWhile Char.isDigit)
    else
      (none, c :: r)

/-- The number at the front of a text. -/
def takeNumeral (s : List Char) : Numeral × List Char :=
  let (sign, s) := takeSign s
  let whole := s.takeWhile Char.isDigit
  let (places, s) := takePlaces (s.dropWhile Char.isDigit)
  let (exponent, s) := takePower s
  ({ sign, digits := Text.natOfDigits (whole ++ places), places := places.length, exponent }, s)

theorem takeSign_suffix (s : List Char) : (takeSign s).2 <:+ s := by
  unfold takeSign
  split
  · exact List.suffix_cons _ _
  · exact List.suffix_cons _ _
  · exact List.suffix_rfl

theorem takePlaces_suffix (s : List Char) : (takePlaces s).2 <:+ s := by
  unfold takePlaces
  split
  · split
    · exact (List.dropWhile_suffix _).trans (List.suffix_cons _ _)
    · exact List.suffix_rfl
  · exact List.suffix_rfl

theorem takePower_suffix (s : List Char) : (takePower s).2 <:+ s := by
  cases s with
  | nil => exact List.suffix_rfl
  | cons c r =>
    unfold takePower
    simp only
    split
    · exact ((List.dropWhile_suffix _).trans (takeSign_suffix r)).trans (List.suffix_cons c r)
    · exact List.suffix_rfl

theorem takeNumeral_suffix (s : List Char) : (takeNumeral s).2 <:+ s := by
  unfold takeNumeral
  exact (((takePower_suffix _).trans (takePlaces_suffix _)).trans
    (List.dropWhile_suffix _)).trans (takeSign_suffix s)

/-! ### Tokens -/

/-- A number with what belongs to it: a unit or a percent sign. -/
def scanNumber (s : List Char) : TokenKind × List Char :=
  let (n, r) := takeNumeral s
  if atName r then
    let (unit, rest) := takeName r
    (.dimension n (String.ofList unit), rest)
  else
    match r with
    | '%' :: rest => (.percentage n, rest)
    | _ => (.number n, r)

/-- The arguments of `url(`: a quoted address makes it a function like any other. -/
def scanUrl (name : List Char) (s : List Char) : TokenKind × List Char :=
  let r := squeezeBlanks s
  let quoteNext := fun (t : List Char) => t.head? == some '"' || t.head? == some '\''
  if quoteNext (dropBlank r) then
    (.function (String.ofList name), r)
  else
    match takeUrl (r.dropWhile isBlank) with
    | (some value, rest) => (.url (String.ofList value), rest)
    | (none, rest) => (.badUrl, rest)

theorem scanUrl_suffix (name s : List Char) : (scanUrl name s).2 <:+ s := by
  have h := squeezeBlanks_suffix s
  have hu := takeUrl_suffix ((squeezeBlanks s).dropWhile isBlank)
  have hd := List.dropWhile_suffix (l := squeezeBlanks s) isBlank
  unfold scanUrl
  simp only
  split
  · exact h
  · split
    · rename_i value rest hr
      rw [hr] at hu
      exact (hu.trans hd).trans h
    · rename_i rest hr
      rw [hr] at hu
      exact (hu.trans hd).trans h

/-- A name, or a function where a parenthesis follows it at once. -/
def scanName (s : List Char) : TokenKind × List Char :=
  let (name, r) := takeName s
  match r with
  | '(' :: rest =>
    if Text.sameLetters (String.ofList name) "url" then scanUrl name rest
    else (.function (String.ofList name), rest)
  | _ => (.ident (String.ofList name), r)

/-- A hash with the name characters after it. -/
def scanHash (r : List Char) : TokenKind × List Char :=
  if (nameChar? r).isSome then
    let (name, rest) := takeName r
    (.hash (String.ofList name) (if atName r then .id else .unrestricted), rest)
  else
    (.delim '#', r)

/-- A string, once its opening quote is read. -/
def scanString (quote : Char) (r : List Char) : TokenKind × List Char :=
  match takeString quote r with
  | (some value, rest) => (.string (String.ofList value), rest)
  | (none, rest) => (.badString, rest)

/-- The word of an at-rule. -/
def scanAt (r : List Char) : TokenKind × List Char :=
  if atName r then
    let (name, rest) := takeName r
    (.atKeyword (String.ofList name), rest)
  else
    (.delim '@', r)

/-- What a hyphen before `r` starts: a number, the end of a markup comment, a name, or nothing. -/
def scanHyphen (r : List Char) : TokenKind × List Char :=
  if atNumber ('-' :: r) then scanNumber ('-' :: r)
  else
    match r with
    | '-' :: '>' :: rest => (.cdc, rest)
    | _ => if atName ('-' :: r) then scanName ('-' :: r) else (.delim '-', r)

/-- What a less-than sign before `r` starts. -/
def scanLess (r : List Char) : TokenKind × List Char :=
  match r with
  | '!' :: '-' :: '-' :: rest => (.cdo, rest)
  | _ => (.delim '<', r)

/-- The token that a character with no reader of its own stands for. -/
def scanSingle (c : Char) : TokenKind :=
  match c with
  | '(' => .leftParen
  | ')' => .rightParen
  | ',' => .comma
  | ':' => .colon
  | ';' => .semicolon
  | '[' => .leftBracket
  | ']' => .rightBracket
  | '\x7b' => .leftBrace
  | '\x7d' => .rightBrace
  | c => .delim c

/-- The token that begins with the character `c` before `r`, and what is left after it. -/
def scan (c : Char) (r : List Char) : TokenKind × List Char :=
  if isBlank c then (.whitespace, r.dropWhile isBlank)
  else if c == '"' || c == '\'' then scanString c r
  else if c == '#' then scanHash r
  else if c == '-' then scanHyphen r
  else if c == '<' then scanLess r
  else if c == '@' then scanAt r
  else if c == '+' || c == '.' then
    if atNumber (c :: r) then scanNumber (c :: r) else (.delim c, r)
  else if c.isDigit then scanNumber (c :: r)
  else if startsName c || (c == '\\' && escapes r) then scanName (c :: r)
  else (scanSingle c, r)

theorem takeWhile_dropWhile_suffix {p : Char → Bool} {c : Char} {r : List Char} (h : p c) :
    (c :: r).dropWhile p <:+ r := by
  rw [List.dropWhile_cons_of_pos h]
  exact List.dropWhile_suffix p

/-- A text that starts with a number has its first character taken. -/
theorem takeNumeral_cons_suffix {c : Char} {r : List Char} (h : atNumber (c :: r)) :
    (takeNumeral (c :: r)).2 <:+ r := by
  have tail : ∀ s : List Char, (takePower (takePlaces s).2).2 <:+ s := fun s =>
    (takePower_suffix _).trans (takePlaces_suffix s)
  by_cases plus : c = '+'
  · subst plus
    exact (tail _).trans (List.dropWhile_suffix _)
  by_cases minus : c = '-'
  · subst minus
    exact (tail _).trans (List.dropWhile_suffix _)
  have sign : takeSign (c :: r) = (none, c :: r) := by
    unfold takeSign
    split <;> simp_all
  by_cases digit : c.isDigit
  · simp only [takeNumeral, sign]
    exact (tail _).trans (takeWhile_dropWhile_suffix digit)
  · have drop : (c :: r).dropWhile Char.isDigit = c :: r := by
      rw [List.dropWhile_cons_of_neg digit]
    have shape : ∃ d t, c = '.' ∧ r = d :: t ∧ d.isDigit := by
      unfold atNumber at h
      split at h
      · simp_all
      · simp_all
      · rename_i _ h1 h2
        unfold atNumber.atUnsigned at h
        split at h
        · rename_i d t hd
          cases hd
          exact ⟨d, t, rfl, rfl, h⟩
        · rename_i hd
          cases hd
          exact absurd h digit
        · exact nomatch h
    obtain ⟨d, t, rfl, rfl, hd⟩ := shape
    simp only [takeNumeral, sign, drop, takePlaces, hd, if_true]
    exact (takePower_suffix _).trans (List.dropWhile_suffix _)

theorem scanNumber_cons_suffix {c : Char} {r : List Char} (h : atNumber (c :: r)) :
    (scanNumber (c :: r)).2 <:+ r := by
  have hn := takeNumeral_cons_suffix h
  simp only [scanNumber]
  split
  · exact (takeName_suffix _).trans hn
  · split
    · rename_i t ht
      rw [ht] at hn
      exact (List.suffix_cons _ _).trans hn
    · exact hn

theorem scanName_cons_suffix {c : Char} {r : List Char} (h : (nameChar? (c :: r)).isSome) :
    (scanName (c :: r)).2 <:+ r := by
  have hn := takeName_cons_suffix h
  simp only [scanName]
  split
  · rename_i rest hr
    rw [hr] at hn
    have := (List.suffix_cons '(' rest).trans hn
    split
    · exact (scanUrl_suffix _ rest).trans this
    · exact this
  · exact hn

theorem nameChar?_isSome_of_startsName {c : Char} (r : List Char) (h : startsName c) :
    (nameChar? (c :: r)).isSome := by
  simp [nameChar?, continuesName, h]

theorem atNumber_of_isDigit {c : Char} (h : c.isDigit) (r : List Char) : atNumber (c :: r) := by
  unfold atNumber
  split
  · rename_i hc
    cases hc
    exact absurd h (by decide)
  · rename_i hc
    cases hc
    exact absurd h (by decide)
  · unfold atNumber.atUnsigned
    split
    · rename_i hc
      cases hc
      exact absurd h (by decide)
    · rename_i hc
      cases hc
      exact h
    · rename_i hc
      exact nomatch hc

/-- A token leaves a suffix of the text after its first character. -/
theorem scan_suffix (c : Char) (r : List Char) : (scan c r).2 <:+ r := by
  unfold scan
  split
  · exact List.dropWhile_suffix _
  split
  · have := takeString_suffix c r
    unfold scanString
    split <;> simp_all
  split
  · unfold scanHash
    split
    · exact takeName_suffix r
    · exact List.suffix_rfl
  split
  · rename_i _ _ _ hc
    unfold scanHyphen
    split
    · rename_i h
      exact scanNumber_cons_suffix h
    · split
      · exact (List.suffix_cons _ _).trans (List.suffix_cons _ _)
      · split
        · exact scanName_cons_suffix (by simp [nameChar?, continuesName])
        · exact List.suffix_rfl
  split
  · unfold scanLess
    split
    · exact ((List.suffix_cons _ _).trans (List.suffix_cons _ _)).trans (List.suffix_cons _ _)
    · exact List.suffix_rfl
  split
  · unfold scanAt
    split
    · exact takeName_suffix r
    · exact List.suffix_rfl
  split
  · split
    · rename_i h
      exact scanNumber_cons_suffix h
    · exact List.suffix_rfl
  split
  · rename_i h
    exact scanNumber_cons_suffix (atNumber_of_isDigit h r)
  split
  · rename_i h
    refine scanName_cons_suffix ?_
    simp only [Bool.or_eq_true, Bool.and_eq_true, beq_iff_eq] at h
    rcases h with h | ⟨rfl, h⟩
    · exact nameChar?_isSome_of_startsName r h
    · simp [nameChar?, continuesName, startsName, h, Text.isAscii]
  · exact List.suffix_rfl

/-- The tokens of a text that begins at the place `offset`. -/
def lexFrom (s : List Char) (offset : Nat) : List Token :=
  match h : skipComments s with
  | [] => []
  | c :: r =>
    have shorter : (scan c r).2.length < s.length := by
      have token := (scan_suffix c r).length_le
      have comments := (skipComments_suffix s).length_le
      simp only [h, List.length_cons] at comments
      omega
    let start := offset + (s.length - (r.length + 1))
    let token := scan c r
    let stop := start + (r.length + 1 - token.2.length)
    { kind := token.1, start, stop } :: lexFrom token.2 stop
termination_by s.length

/-- The tokens of a normalised text. -/
def lex (source : List Char) : List Token :=
  lexFrom source 0

end Selectors.Token

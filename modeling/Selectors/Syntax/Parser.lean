import Selectors.Syntax.Basic

/-!
# Reading complex selectors

A complex selector is compounds joined by combinators, and a relative one may begin with a
combinator. A compound is at most one type selector and then other simple selectors; after a
pseudo-element only pseudo-classes and pseudo-elements may follow. Every reader takes tokens from
the front of a run and returns what it read with the rest; there is one failure only, and the text
it blames is that of the whole complex selector.

* `readSimple` reads one simple selector that is not a type selector, and always takes a token.
* `readCompound` reads the longest compound.
* `ComplexNode.ofTokens?` and `ComplexNode.listOfTokens` read one complex selector and a
  comma-separated list of them.
-/

namespace Selectors

namespace Syntax

/-- The rest of a run without the whitespace tokens at its front. -/
def skipSpace (ts : List Token) : List Token :=
  ts.dropWhile Token.isWhitespace

/-- Whether the next token is the character `c`. -/
def atDelim (c : Char) : List Token → Bool
  | t :: _ => t.kind == .delim c
  | [] => false

/-! ### Type selectors -/

/-- The name in a type selector: `none` inside for the star. -/
def typeName? : List Token → Option (Option String × List Token)
  | ⟨.ident name, _, _⟩ :: r => some (some name, r)
  | ⟨.delim c, _, _⟩ :: r => if c == '*' then some (none, r) else none
  | _ => none

/-- The qualified name after a bar, if the next token is one. -/
def afterBar? : List Token → Option (Option String × List Token)
  | t :: r => if t.kind == .delim '|' then typeName? r else none
  | [] => none

/-- A type selector, if the run starts like one; a bar that no name follows belongs to what comes
next. -/
def typeSelector? (ts : List Token) : Option (Component × List Token) :=
  match afterBar? ts with
  | some (name, rest) => some (.type .absent name, rest)
  | none =>
    match typeName? ts with
    | none => none
    | some (first, r) =>
      match afterBar? r with
      | some (name, rest) => some (.type (first.elim .any .named) name, rest)
      | none => some (.type .implied first, r)

/-- Whether a run starts the way only type selectors do. -/
def startsType : List Token → Bool
  | t :: _ =>
    match t.kind with
    | .ident _ => true
    | .delim c => c == '*' || c == '|'
    | _ => false
  | [] => false

/-! ### Attribute selectors -/

def identName? : List Token → Option (String × List Token)
  | ⟨.ident name, _, _⟩ :: r => some (name, r)
  | _ => none

/-- The name after a bar, if the run starts with a bar and a name. -/
def identAfterBar? : List Token → Option (String × List Token)
  | t :: r => if t.kind == .delim '|' then identName? r else none
  | [] => none

/-- The name of an attribute and what is written before its bar. -/
def attributeName? (ts : List Token) : Option ((NamespaceTest × String) × List Token) :=
  if atDelim '|' ts then
    (identAfterBar? ts).map fun (name, r) => ((.absent, name), r)
  else if atDelim '*' ts then
    (identAfterBar? ts.tail).map fun (name, r) => ((.any, name), r)
  else
    match identName? ts with
    | none => none
    | some (first, r) =>
      match identAfterBar? r with
      | some (name, rest) => some ((.named first, name), rest)
      | none => some ((.implied, first), r)

/-- The operator that a character before an equals sign stands for. -/
def operatorOf? : Char → Option AttributeOperator
  | '~' => some .includes
  | '|' => some .dashMatch
  | '^' => some .beginsWith
  | '$' => some .endsWith
  | '*' => some .contains
  | _ => none

def attributeOperator? : List Token → Option (AttributeOperator × List Token)
  | ⟨.delim c, _, _⟩ :: r =>
    if c == '=' then
      some (.equals, r)
    else
      match operatorOf? c with
      | some op => if atDelim '=' r then some (op, r.tail) else none
      | none => none
  | _ => none

/-- A value is a name or a string. -/
def attributeValue? : List Token → Option (String × List Token)
  | ⟨.ident v, _, _⟩ :: r => some (v, r)
  | ⟨.string v, _, _⟩ :: r => some (v, r)
  | _ => none

/-- The flag after a value; any other name there is a failure. -/
def caseFlag? (ts : List Token) : Option (Option CaseFlag × List Token) :=
  match identName? ts with
  | none => some (none, ts)
  | some (name, r) =>
    if Text.sameLetters name "i" then some (some .insensitive, r)
    else if Text.sameLetters name "s" then some (some .sensitive, r)
    else none

/-- The closing bracket, which the end of the run replaces. -/
def closeBracket? : List Token → Option (List Token)
  | [] => some []
  | t :: r => if t.kind == .rightBracket then some r else none

/-- The comparison, its flag and the closing bracket. -/
def attributeMatcher? (ts : List Token) :
    Option ((AttributeOperator × String) × Option CaseFlag × List Token) := do
  let (op, r) ← attributeOperator? ts
  let (value, r) ← attributeValue? (skipSpace r)
  let (flag, r) ← caseFlag? (skipSpace r)
  let r ← closeBracket? (skipSpace r)
  return ((op, value), flag, r)

/-- What stands between the brackets, once the opening one is read. -/
def attributeTest? (ts : List Token) : Option (AttributeTest × List Token) :=
  match attributeName? (skipSpace ts) with
  | none => none
  | some ((space, name), r) =>
    match closeBracket? (skipSpace r) with
    | some rest => some ({ space, name, matcher := none, flag := none }, rest)
    | none =>
      (attributeMatcher? (skipSpace r)).map fun (matcher, flag, rest) =>
        ({ space, name, matcher := some matcher, flag }, rest)

/-! ### Pseudo-classes and pseudo-elements -/

/-- The tokens before the parenthesis that closes a function, where `depth` more are open before the
run, and the rest, which starts with that parenthesis. Only parentheses are counted. -/
def argumentTokens : Nat → List Token → List Token × List Token
  | _, [] => ([], [])
  | depth, t :: ts =>
    if t.kind == .rightParen && depth == 0 then
      ([], t :: ts)
    else
      let depth :=
        if t.kind.opensParen then depth + 1
        else if t.kind == .rightParen then depth - 1
        else depth
      let (inside, rest) := argumentTokens depth ts
      (t :: inside, rest)

/-- The names that are pseudo-elements also after a single colon. -/
def legacyPseudoElements : List String :=
  ["before", "after", "first-line", "first-letter"]

def isLegacyPseudoElement (name : String) : Bool :=
  legacyPseudoElements.contains (Text.lower name)

/-- The arguments of a function, read up to its closing parenthesis or the end of the run; the place
where the function's text ends, `stop` if nothing follows it; and the rest. -/
def readArguments (source : List Char) (stop : Nat) (ts : List Token) :
    Arguments × Nat × List Token :=
  let (inside, rest) := argumentTokens 0 ts
  let args := { tokens := inside, text := sliceOf source inside }
  match rest with
  | close :: r => (args, close.stop, r)
  | [] => (args, (inside.getLast?.map Token.stop).getD stop, [])

/-- A pseudo-class or pseudo-element, once its first colon, at the place `start`, is read. -/
def readPseudo? (source : List Char) (start : Nat) (ts : List Token) :
    Option (Component × List Token) :=
  let (double, ts) :=
    match ts with
    | t :: r => if t.kind == TokenKind.colon then (true, r) else (false, t :: r)
    | [] => (false, [])
  match ts with
  | ⟨.ident name, _, stop⟩ :: r =>
    let text := slice source start stop
    if double then some (.pseudoElement name none false text, r)
    else if isLegacyPseudoElement name then some (.pseudoElement name none true text, r)
    else some (.pseudoClass name none text, r)
  | ⟨.function name, _, stop⟩ :: r =>
    let (args, stop, rest) := readArguments source stop r
    let text := slice source start stop
    if double then some (.pseudoElement name (some args) false text, rest)
    else some (.pseudoClass name (some args) text, rest)
  | _ => none

/-! ### Compounds -/

/-- A simple selector other than a type selector, which begins with the token `t` before `r`. -/
def readSimple? (source : List Char) (t : Token) (r : List Token) :
    Option (Component × List Token) :=
  match t.kind with
  | .hash name .id => some (.id name, r)
  | .delim '.' => (identName? r).map fun (name, rest) => (.class name, rest)
  | .delim '&' => some (.nesting, r)
  | .leftBracket => (attributeTest? r).map fun (test, rest) => (.attribute test, rest)
  | .colon => readPseudo? source t.start r
  | _ => none

/-- The combinator at the front of a run, other than whitespace. -/
def combinatorMark? : List Token → Option (CombinatorMark × List Token)
  | ⟨.delim '>', _, _⟩ :: r => some (.child, r)
  | ⟨.delim '+', _, _⟩ :: r => some (.nextSibling, r)
  | ⟨.delim '~', _, _⟩ :: r => some (.subsequentSibling, r)
  | ⟨.delim '|', _, _⟩ :: ⟨.delim '|', _, _⟩ :: r => some (.column, r)
  | _ => none

/-- Whether a compound ends before the run. -/
def endsCompound (ts : List Token) : Bool :=
  ts.isEmpty || ts.head?.any Token.isWhitespace || (combinatorMark? ts).isSome

theorem skipSpace_length (ts : List Token) : (skipSpace ts).length ≤ ts.length :=
  (List.dropWhile_suffix _).length_le

theorem identName?_length {ts : List Token} {x : String × List Token} (h : identName? ts = some x) :
    x.2.length < ts.length := by
  unfold identName? at h
  split at h
  · cases h
    exact Nat.lt_succ_self _
  · exact nomatch h

theorem identAfterBar?_length {ts : List Token} {x : String × List Token}
    (h : identAfterBar? ts = some x) : x.2.length < ts.length := by
  unfold identAfterBar? at h
  split at h
  · split at h
    · exact Nat.lt_succ_of_lt (identName?_length h)
    · exact nomatch h
  · exact nomatch h

theorem typeName?_length {ts : List Token} {x : Option String × List Token}
    (h : typeName? ts = some x) : x.2.length < ts.length := by
  unfold typeName? at h
  split at h
  · cases h
    exact Nat.lt_succ_self _
  · split at h
    · cases h
      exact Nat.lt_succ_self _
    · exact nomatch h
  · exact nomatch h

theorem afterBar?_length {ts : List Token} {x : Option String × List Token}
    (h : afterBar? ts = some x) : x.2.length < ts.length := by
  unfold afterBar? at h
  split at h
  · split at h
    · exact Nat.lt_succ_of_lt (typeName?_length h)
    · exact nomatch h
  · exact nomatch h

theorem typeSelector?_length {ts : List Token} {x : Component × List Token}
    (h : typeSelector? ts = some x) : x.2.length < ts.length := by
  unfold typeSelector? at h
  split at h
  · rename_i hb
    cases h
    exact afterBar?_length hb
  · split at h
    · exact nomatch h
    · rename_i hn
      split at h
      · rename_i hb
        cases h
        exact Nat.lt_trans (afterBar?_length hb) (typeName?_length hn)
      · cases h
        exact typeName?_length hn

theorem attributeName?_length {ts : List Token} {x : (NamespaceTest × String) × List Token}
    (h : attributeName? ts = some x) : x.2.length < ts.length := by
  unfold attributeName? at h
  split at h
  · obtain ⟨y, hy, rfl⟩ := Option.map_eq_some_iff.mp h
    exact identAfterBar?_length hy
  split at h
  · obtain ⟨y, hy, rfl⟩ := Option.map_eq_some_iff.mp h
    have := identAfterBar?_length hy
    have := List.length_tail (l := ts)
    simp only
    omega
  split at h
  · exact nomatch h
  · rename_i hn
    split at h
    · rename_i hb
      cases h
      exact Nat.lt_trans (identAfterBar?_length hb) (identName?_length hn)
    · cases h
      exact identName?_length hn

theorem closeBracket?_length {ts r : List Token} (h : closeBracket? ts = some r) :
    r.length ≤ ts.length := by
  unfold closeBracket? at h
  split at h
  · cases h
    exact Nat.le_refl _
  · split at h
    · cases h
      exact Nat.le_succ _
    · exact nomatch h

theorem attributeOperator?_length {ts : List Token} {x : AttributeOperator × List Token}
    (h : attributeOperator? ts = some x) : x.2.length < ts.length := by
  unfold attributeOperator? at h
  split at h
  · split at h
    · cases h
      exact Nat.lt_succ_self _
    · split at h
      · split at h
        · cases h
          simp only [List.length_tail, List.length_cons]
          omega
        · exact nomatch h
      · exact nomatch h
  · exact nomatch h

theorem attributeValue?_length {ts : List Token} {x : String × List Token}
    (h : attributeValue? ts = some x) : x.2.length < ts.length := by
  unfold attributeValue? at h
  split at h
  · cases h
    exact Nat.lt_succ_self _
  · cases h
    exact Nat.lt_succ_self _
  · exact nomatch h

theorem caseFlag?_length {ts : List Token} {x : Option CaseFlag × List Token}
    (h : caseFlag? ts = some x) : x.2.length ≤ ts.length := by
  unfold caseFlag? at h
  split at h
  · cases h
    exact Nat.le_refl _
  · rename_i hn
    have := identName?_length hn
    split at h
    · cases h
      exact Nat.le_of_lt this
    · split at h
      · cases h
        exact Nat.le_of_lt this
      · exact nomatch h

theorem attributeMatcher?_length {ts : List Token}
    {x : (AttributeOperator × String) × Option CaseFlag × List Token}
    (h : attributeMatcher? ts = some x) : x.2.2.length < ts.length := by
  simp only [attributeMatcher?, Option.bind_eq_bind, Option.bind_eq_some_iff, Option.pure_def,
    Option.some.injEq] at h
  obtain ⟨a, ha, b, hb, c, hc, d, hd, rfl⟩ := h
  have := attributeOperator?_length ha
  have := attributeValue?_length hb
  have := caseFlag?_length hc
  have := closeBracket?_length hd
  have := skipSpace_length a.2
  have := skipSpace_length b.2
  have := skipSpace_length c.2
  simp only
  omega

theorem attributeTest?_length {ts : List Token} {x : AttributeTest × List Token}
    (h : attributeTest? ts = some x) : x.2.length < ts.length := by
  have space := skipSpace_length ts
  unfold attributeTest? at h
  split at h
  · exact nomatch h
  · rename_i name _ r hn
    have taken := attributeName?_length hn
    have inner := skipSpace_length r
    simp only at taken
    split at h
    · rename_i hc
      cases h
      have := closeBracket?_length hc
      simp only
      omega
    · obtain ⟨y, hy, rfl⟩ := Option.map_eq_some_iff.mp h
      have := attributeMatcher?_length hy
      show y.2.2.length < ts.length
      omega

/-- The arguments and the rest make up the run. -/
theorem argumentTokens_append (depth : Nat) (ts : List Token) :
    (argumentTokens depth ts).1 ++ (argumentTokens depth ts).2 = ts := by
  induction ts generalizing depth with
  | nil => rfl
  | cons t ts ih =>
    unfold argumentTokens
    split
    · rfl
    · simp only [List.cons_append, ih]

theorem readArguments_length (source : List Char) (stop : Nat) (ts : List Token) :
    (readArguments source stop ts).1.tokens.length + (readArguments source stop ts).2.2.length
      ≤ ts.length := by
  have := congrArg List.length (argumentTokens_append 0 ts)
  simp only [List.length_append] at this
  unfold readArguments
  simp only
  split
  · rename_i hr
    rw [hr] at this
    simp only [List.length_cons] at this
    simp only
    omega
  · simp only [List.length_nil]
    omega

theorem readPseudo?_length {source : List Char} {start : Nat} {ts : List Token}
    {x : Component × List Token} (h : readPseudo? source start ts = some x) :
    x.2.length < ts.length := by
  have inner : ∀ (double : Bool) (us : List Token) (y : Component × List Token),
      (match us with
        | ⟨.ident name, _, stop⟩ :: r =>
          let text := slice source start stop
          if double then some (.pseudoElement name none false text, r)
          else if isLegacyPseudoElement name then some (.pseudoElement name none true text, r)
          else some (.pseudoClass name none text, r)
        | ⟨.function name, _, stop⟩ :: r =>
          let (args, stop, rest) := readArguments source stop r
          let text := slice source start stop
          if double then some (.pseudoElement name (some args) false text, rest)
          else some (.pseudoClass name (some args) text, rest)
        | _ => none) = some y → y.2.length < us.length := by
    intro double us y hy
    split at hy
    · simp only at hy
      split at hy
      · cases hy
        exact Nat.lt_succ_self _
      · split at hy <;> (cases hy; exact Nat.lt_succ_self _)
    · rename_i stop r
      have := readArguments_length source stop r
      simp only at hy
      have shorter := Nat.lt_succ_of_le (Nat.le_trans (Nat.le_add_left _ _) this)
      split at hy <;> (cases hy; exact shorter)
    · exact nomatch hy
  unfold readPseudo? at h
  simp only at h
  have := inner _ _ _ h
  revert this
  split
  · split
    · intro this
      exact Nat.lt_succ_of_lt this
    · exact id
  · exact id

theorem readSimple?_length {source : List Char} {t : Token} {r : List Token}
    {x : Component × List Token} (h : readSimple? source t r = some x) :
    x.2.length ≤ r.length := by
  unfold readSimple? at h
  split at h
  · cases h
    exact Nat.le_refl _
  · obtain ⟨y, hy, rfl⟩ := Option.map_eq_some_iff.mp h
    exact Nat.le_of_lt (identName?_length hy)
  · cases h
    exact Nat.le_refl _
  · obtain ⟨y, hy, rfl⟩ := Option.map_eq_some_iff.mp h
    exact Nat.le_of_lt (attributeTest?_length hy)
  · exact Nat.le_of_lt (readPseudo?_length h)
  · exact nomatch h

/-- The simple selectors up to the end of the compound; `after` says that a pseudo-element has been
read in it. -/
def readSimples? (source : List Char) (after : Bool) (ts : List Token) :
    Option (List Component × List Token) :=
  if endsCompound ts then
    some ([], ts)
  else
    match ts with
    | [] => some ([], [])
    | t :: r =>
      match h : readSimple? source t r with
      | none => none
      | some (c, rest) =>
        have : rest.length ≤ r.length := readSimple?_length h
        if after && !c.isPseudo then
          none
        else
          (readSimples? source (after || c.isPseudoElement) rest).map fun (cs, rest) =>
            (c :: cs, rest)
termination_by ts.length
decreasing_by all_goals simp_all only [List.length_cons]; omega

/-- The longest compound at the front of a run. It has at least one simple selector. -/
def readCompound? (source : List Char) (ts : List Token) : Option (List Component × List Token) :=
  if endsCompound ts then
    none
  else if startsType ts then
    match typeSelector? ts with
    | none => none
    | some (c, r) => (readSimples? source false r).map fun (cs, rest) => (c :: cs, rest)
  else
    readSimples? source false ts

theorem readSimples?_length {source : List Char} {after : Bool} {ts : List Token}
    {x : List Component × List Token} (h : readSimples? source after ts = some x) :
    x.2.length ≤ ts.length := by
  fun_induction readSimples? source after ts generalizing x with
  | case1 => cases h; exact Nat.le_refl _
  | case2 => cases h; exact Nat.le_refl _
  | case3 => exact nomatch h
  | case4 => exact nomatch h
  | case5 after t r _ c rest hc hle _ ih =>
    obtain ⟨y, hy, rfl⟩ := Option.map_eq_some_iff.mp h
    have := ih hy
    simp only [List.length_cons]
    omega

theorem readCompound?_length {source : List Char} {ts : List Token}
    {x : List Component × List Token} (h : readCompound? source ts = some x) :
    x.2.length < ts.length := by
  unfold readCompound? at h
  split at h
  · exact nomatch h
  rename_i ends
  split at h
  · split at h
    · exact nomatch h
    · rename_i hc
      obtain ⟨y, hy, rfl⟩ := Option.map_eq_some_iff.mp h
      have := typeSelector?_length hc
      have := readSimples?_length hy
      simp only at *
      omega
  · unfold readSimples? at h
    rw [if_neg ends] at h
    split at h
    · exact absurd rfl ends
    · split at h
      · exact nomatch h
      · rename_i hs
        have := readSimple?_length hs
        simp only at h
        split at h
        · exact nomatch h
        · obtain ⟨y, hy, rfl⟩ := Option.map_eq_some_iff.mp h
          have := readSimples?_length hy
          simp only [List.length_cons] at *
          omega

/-! ### Complex selectors -/

/-- The combinator between two compounds: a mark with whitespace around it, or whitespace alone. -/
def readCombinator (ts : List Token) : CombinatorMark × List Token :=
  match combinatorMark? (skipSpace ts) with
  | some (mark, r) => (mark, skipSpace r)
  | none => (.descendant, skipSpace ts)

theorem combinatorMark?_length {ts : List Token} {x : CombinatorMark × List Token}
    (h : combinatorMark? ts = some x) : x.2.length < ts.length := by
  unfold combinatorMark? at h
  split at h <;> first
    | (cases h; simp only [List.length_cons]; omega)
    | exact nomatch h

theorem readCombinator_length (ts : List Token) : (readCombinator ts).2.length ≤ ts.length := by
  have := skipSpace_length ts
  unfold readCombinator
  split
  · rename_i mark r h
    have := combinatorMark?_length h
    have := skipSpace_length r
    simp only at *
    omega
  · exact this

/-- The combinators and compounds after the first compound, up to the end of the run. -/
def readJoined? (source : List Char) (ts : List Token) :
    Option (List (CombinatorMark × List Component)) :=
  match ts with
  | [] => some []
  | t :: r =>
    match h : readCompound? source (readCombinator (t :: r)).2 with
    | none => none
    | some (compound, rest) =>
      have : rest.length < (t :: r).length :=
        Nat.lt_of_lt_of_le (readCompound?_length h) (readCombinator_length _)
      (readJoined? source rest).map (((readCombinator (t :: r)).1, compound) :: ·)
termination_by ts.length
decreasing_by exact this

/-- A combinator at the very front, which only a relative selector may have. -/
def readLeading? (relative : Bool) (ts : List Token) :
    Option (Option CombinatorMark × List Token) :=
  match combinatorMark? ts with
  | some (mark, r) => if relative then some (some mark, skipSpace r) else none
  | none => some (none, ts)

end Syntax

namespace ComplexNode

/-- The complex selector that fills a run without whitespace around it. -/
def read? (source : List Char) (relative : Bool) (ts : List Token) : Option ComplexNode := do
  let (leading, r) ← Syntax.readLeading? relative ts
  let (first, r) ← Syntax.readCompound? source r
  let joined ← Syntax.readJoined? source r
  return { leading, first, joined, text := sliceOf source ts }

/-- Reads one complex selector, relative or not, with any whitespace around it. -/
def ofTokens (source : List Char) (relative : Bool) (ts : List Token) :
    Except SelectorError ComplexNode :=
  match read? source relative (Token.trim ts) with
  | some node => .ok node
  | none => .error (.invalidSelector (sliceOf source (Token.trim ts)))

/-- Reads the members of a comma-separated list; the first that fails is blamed. -/
def listOfTokens (source : List Char) (relative : Bool) (ts : List Token) :
    Except SelectorError (List ComplexNode) :=
  (Token.splitList ts).mapM (ofTokens source relative)

/-- A list that can be read has a member. -/
theorem listOfTokens_ne_nil {source : List Char} {relative : Bool} {ts : List Token}
    {nodes : List ComplexNode} (h : listOfTokens source relative ts = .ok nodes) :
    nodes ≠ [] := by
  unfold listOfTokens at h
  cases hmembers : Token.splitList ts with
  | nil => exact absurd hmembers (Token.splitFrom_ne_nil 0 ts)
  | cons member more =>
      rw [hmembers, List.mapM_cons] at h
      cases hfirst : ofTokens source relative member with
      | error e =>
          rw [hfirst] at h
          cases h
      | ok node =>
          rw [hfirst] at h
          cases hrest : more.mapM (ofTokens source relative) with
          | error e =>
              simp only [hrest] at h
              cases h
          | ok rest =>
              simp only [hrest] at h
              cases h
              simp

end ComplexNode

end Selectors

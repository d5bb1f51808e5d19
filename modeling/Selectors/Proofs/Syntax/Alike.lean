import Mathlib.Data.List.Forall2
import Selectors.Proofs.Running
import Selectors.Proofs.Syntax.Acceptance
import Selectors.Proofs.Token.Splitting

/-!
# Reading two runs alike

The reader of selectors asks a token for its kind only.  Places go into the texts of pseudo-classes
and pseudo-elements, and a token that opens a parenthesis is never read alone, but with the
arguments behind it.  So two runs are read alike if their tokens are of the same kinds, as far as a
relation between the runs says so, and if that relation holds again behind the arguments of a
function.

* `Syntax.Mirrors` says what is asked of the relation: for each reading of arguments and of places
  there is one field.
* `Component.Alike` and `ComplexNode.Alike` compare what is read, up to arguments and texts.
* `ComplexNode.read_alike` is the result.
* `ComplexNode.ofTokens_within` follows for a run and itself: an argument is shorter than the member
  it stands in.
-/

namespace Selectors

/-- The same simple selector, but for what arguments and texts are compared by. -/
inductive Component.Alike (A : Arguments → Arguments → Prop) (T : String → String → Prop) :
    Component → Component → Prop where
  | plain {c : Component} (h : c.isPseudo = false) : Alike A T c c
  | pseudoClass (name : String) {args args' : Option Arguments} {text text' : String}
      (hargs : Option.Rel A args args') (htext : T text text') :
      Alike A T (.pseudoClass name args text) (.pseudoClass name args' text')
  | pseudoElement (name : String) {args args' : Option Arguments} (oneColon : Bool)
      {text text' : String} (hargs : Option.Rel A args args') (htext : T text text') :
      Alike A T (.pseudoElement name args oneColon text) (.pseudoElement name args' oneColon text')

/-- The same complex selector, but for its text and what its components are compared by. -/
structure ComplexNode.Alike (A : Arguments → Arguments → Prop) (T : String → String → Prop)
    (node node' : ComplexNode) : Prop where
  leading : node.leading = node'.leading
  first : List.Forall₂ (Component.Alike A T) node.first node'.first
  joined : List.Forall₂ (fun x x' => x.1 = x'.1 ∧ List.Forall₂ (Component.Alike A T) x.2 x'.2)
    node.joined node'.joined

namespace Component

variable {A : Arguments → Arguments → Prop} {T : String → String → Prop} {c c' : Component}

/-- Alike components are pseudo-classes or pseudo-elements both, or neither is. -/
theorem Alike.isPseudo (h : Alike A T c c') : c.isPseudo = c'.isPseudo := by
  cases h <;> rfl

/-- Alike components are pseudo-elements both, or neither is. -/
theorem Alike.isPseudoElement (h : Alike A T c c') : c.isPseudoElement = c'.isPseudoElement := by
  cases h <;> rfl

end Component

namespace Syntax

/-- The name of a pseudo-class or pseudo-element with its arguments, once its colons are read. -/
def readNamed? (source : List Char) (start : Nat) (double : Bool) (ts : List Token) :
    Option (Component × List Token) :=
  match ts with
  | ⟨.ident name, _, stop⟩ :: r =>
    let text := slice source start stop
    if double then some (.pseudoElement name none false text, r)
    else if isLegacyPseudoElement name then some (.pseudoElement name none true text, r)
    else some (.pseudoClass name none text, r)
  | ⟨.function name, _, stop⟩ :: r =>
    let (args, stop, rest) := readArguments source stop r
    let text := slice source start stop
    if double then some (.pseudoElement name (some args) false text, rest)
    else some (.pseudoClass name (some args) text, rest)
  | _ => none

/-- A pseudo-class or pseudo-element is its colons and then its name: a second colon is looked for
once, and what is behind it is read by one reader. -/
theorem readPseudo?_eq (source : List Char) (start : Nat) (ts : List Token) :
    readPseudo? source start ts =
      if ts.head?.any fun t => t.kind == TokenKind.colon then readNamed? source start true ts.tail
      else readNamed? source start false ts := by
  cases ts with
  | nil => rfl
  | cons t r =>
      unfold readPseudo?
      by_cases hcolon : t.kind == TokenKind.colon
      · simp only [hcolon, if_true, List.head?_cons, Option.any_some, List.tail_cons]
        rfl
      · simp only [hcolon, Bool.false_eq_true, if_false, List.head?_cons, Option.any_some]
        rfl

theorem combinatorMark?_delim {c : Char} {i j : Nat} {r : List Token} (hchild : c ≠ '>')
    (hnext : c ≠ '+') (hlater : c ≠ '~') (hbar : c ≠ '|') :
    combinatorMark? (⟨.delim c, i, j⟩ :: r) = none := by
  unfold combinatorMark?
  split <;> first
    | rfl
    | simp_all

theorem combinatorMark?_bar {k : TokenKind} {i j i' j' : Nat} {r : List Token}
    (hbar : k ≠ .delim '|') : combinatorMark? (⟨.delim '|', i, j⟩ :: ⟨k, i', j'⟩ :: r) = none := by
  unfold combinatorMark?
  split <;> first
    | rfl
    | simp_all

/-- A relation `R` between runs under which they are read alike.  Places are compared by `P`, the
arguments of functions by `A` and texts by `T`. -/
structure Mirrors (source source' : List Char) (R : List Token → List Token → Prop)
    (P : Nat → Nat → Prop) (A : Arguments → Arguments → Prop) (T : String → String → Prop) :
    Prop where
  nil : ∀ {r : List Token}, R [] r → r = []
  cons : ∀ {t : Token} {r u : List Token}, R (t :: r) u → ∃ t' r', u = t' :: r' ∧
    t.kind = t'.kind ∧ P t.start t'.start ∧ P t.stop t'.stop ∧
      (t.kind.opensParen = false → R r r')
  arguments : ∀ {t t' : Token} {r r' : List Token} {name : String}, R (t :: r) (t' :: r') →
    t.kind = .function name →
      A (readArguments source t.stop r).1 (readArguments source' t'.stop r').1 ∧
      P (readArguments source t.stop r).2.1 (readArguments source' t'.stop r').2.1 ∧
      R (readArguments source t.stop r).2.2 (readArguments source' t'.stop r').2.2
  text : ∀ {i j i' j' : Nat}, P i i' → P j j' → T (slice source i j) (slice source' i' j')

variable {α β : Type} {source source' : List Char} {R : List Token → List Token → Prop}
  {P : Nat → Nat → Prop} {A : Arguments → Arguments → Prop} {T : String → String → Prop}
  {ts us : List Token} {c : Char} {start start' : Nat}

/-- Two readings of which both fail, or both succeed with parts that are alike. -/
def Agree (Q : α → β → Prop) (R : List Token → List Token → Prop) :
    Option (α × List Token) → Option (β × List Token) → Prop :=
  Option.Rel fun x x' => Q x.1 x'.1 ∧ R x.2 x'.2

/-- What agrees still agrees when both results are mapped. -/
theorem Agree.map {α' β' : Type} {Q : α → β → Prop} {Q' : α' → β' → Prop} {f : α → α'} {g : β → β'}
    (hfg : ∀ {a b}, Q a b → Q' (f a) (g b)) {x : Option (α × List Token)}
    {y : Option (β × List Token)} (h : Agree Q R x y) :
    Agree Q' R (x.map fun (a, r) => (f a, r)) (y.map fun (b, r) => (g b, r)) := by
  cases h with
  | none => exact .none
  | some h => exact .some ⟨hfg h.1, h.2⟩

/-- Readings that agree both fail, or both give something and leave alike runs. -/
theorem Agree.cases {Q : α → β → Prop} {x : Option (α × List Token)} {y : Option (β × List Token)}
    (h : Agree Q R x y) :
    (x = none ∧ y = none) ∨ ∃ a r b s, x = some (a, r) ∧ y = some (b, s) ∧ Q a b ∧ R r s := by
  cases h with
  | none => exact Or.inl ⟨rfl, rfl⟩
  | @some a b h => exact Or.inr ⟨a.1, a.2, b.1, b.2, rfl, rfl, h.1, h.2⟩

namespace Mirrors

/-- The first tokens of two related runs. -/
theorem cases (C : Mirrors source source' R P A T) (h : R ts us) :
    (ts = [] ∧ us = []) ∨ ∃ k i j r i' j' r', ts = ⟨k, i, j⟩ :: r ∧ us = ⟨k, i', j'⟩ :: r' ∧
      (k.opensParen = false → R r r') := by
  cases ts with
  | nil => exact Or.inl ⟨rfl, C.nil h⟩
  | cons t r =>
      obtain ⟨⟨k', i', j'⟩, r', rfl, hkind, -, -, hrest⟩ := C.cons h
      obtain ⟨k, i, j⟩ := t
      obtain rfl : k = k' := hkind
      exact Or.inr ⟨k, i, j, r, i', j', r', rfl, rfl, hrest⟩

/-! ### Whitespace and single tokens -/

/-- Alike runs are alike behind their leading whitespace. -/
theorem skipSpace (C : Mirrors source source' R P A T) (h : R ts us) :
    R (skipSpace ts) (skipSpace us) := by
  induction ts generalizing us with
  | nil =>
      obtain rfl := C.nil h
      exact h
  | cons t r ih =>
      obtain ⟨t', r', rfl, hkind, -, -, hrest⟩ := C.cons h
      by_cases hspace : t.kind = .whitespace
      · have ht : t.isWhitespace = true := beq_iff_eq.mpr hspace
        have ht' : t'.isWhitespace = true := beq_iff_eq.mpr (hkind ▸ hspace)
        rw [Syntax.skipSpace, Syntax.skipSpace, List.dropWhile_cons_of_pos ht,
          List.dropWhile_cons_of_pos ht']
        exact ih (hrest (by rw [hspace]; rfl))
      · have ht : ¬t.isWhitespace = true := fun ht => hspace (beq_iff_eq.mp ht)
        have ht' : ¬t'.isWhitespace = true := fun ht => hspace (hkind.trans (beq_iff_eq.mp ht))
        rw [Syntax.skipSpace, Syntax.skipSpace, List.dropWhile_cons_of_neg ht,
          List.dropWhile_cons_of_neg ht']
        exact h

/-- Alike runs stand at a given character both, or neither does. -/
theorem atDelim (C : Mirrors source source' R P A T) (h : R ts us) :
    atDelim c ts = atDelim c us := by
  rcases C.cases h with ⟨rfl, rfl⟩ | ⟨k, i, j, r, i', j', r', rfl, rfl, -⟩ <;> rfl

/-- Behind a character alike runs are alike, because a character opens no parenthesis. -/
theorem tail (C : Mirrors source source' R P A T) (h : R ts us)
    (hdelim : Syntax.atDelim c ts = true) : R ts.tail us.tail := by
  rcases C.cases h with ⟨rfl, rfl⟩ | ⟨k, i, j, r, i', j', r', rfl, rfl, hrest⟩
  · exact h
  · have hkind : k = .delim c := beq_iff_eq.mp hdelim
    exact hrest (by rw [hkind]; rfl)

/-! ### Type selectors -/

/-- Alike runs begin with the same type name, if with any. -/
theorem typeName (C : Mirrors source source' R P A T) (h : R ts us) :
    Agree Eq R (typeName? ts) (typeName? us) := by
  rcases C.cases h with ⟨rfl, rfl⟩ | ⟨k, i, j, r, i', j', r', rfl, rfl, hrest⟩
  · exact .none
  · cases k with
    | ident name => exact .some ⟨rfl, hrest rfl⟩
    | delim c =>
        simp only [typeName?]
        split
        · exact .some ⟨rfl, hrest rfl⟩
        · exact .none
    | _ => exact .none

/-- What a reader takes behind a bar. -/
theorem behindBar (C : Mirrors source source' R P A T) {f g : List Token → Option (α × List Token)}
    (hf : ∀ {ts us}, R ts us → Agree Eq R (f ts) (f us)) (hnil : g [] = none)
    (hcons : ∀ t ts, g (t :: ts) = if t.kind == .delim '|' then f ts else none) (h : R ts us) :
    Agree Eq R (g ts) (g us) := by
  rcases C.cases h with ⟨rfl, rfl⟩ | ⟨k, i, j, r, i', j', r', rfl, rfl, hrest⟩
  · rw [hnil]
    exact .none
  · rw [hcons, hcons]
    split
    · rename_i hbar
      have hkind : k = .delim '|' := beq_iff_eq.mp hbar
      exact hf (hrest (by rw [hkind]; rfl))
    · exact .none

/-- Behind a bar alike runs give the same type name. -/
theorem afterBar (C : Mirrors source source' R P A T) (h : R ts us) :
    Agree Eq R (afterBar? ts) (afterBar? us) :=
  C.behindBar C.typeName rfl (fun _ _ => rfl) h

/-- The type selector at the front of alike runs is alike, with its prefix. -/
theorem typeSelector (C : Mirrors source source' R P A T) (h : R ts us) :
    Agree (Component.Alike A T) R (typeSelector? ts) (typeSelector? us) := by
  unfold typeSelector?
  rcases (C.afterBar h).cases with ⟨hx, hy⟩ | ⟨name, r, _, r', hx, hy, rfl, hr⟩
  · rw [hx, hy]
    rcases (C.typeName h).cases with ⟨hx, hy⟩ | ⟨first, r, _, r', hx, hy, rfl, hr⟩
    · rw [hx, hy]
      exact .none
    · rw [hx, hy]
      simp only
      rcases (C.afterBar hr).cases with ⟨hx, hy⟩ | ⟨name, r, _, r', hx, hy, rfl, hr⟩
      · rw [hx, hy]
        exact .some ⟨.plain rfl, hr⟩
      · rw [hx, hy]
        exact .some ⟨.plain rfl, hr⟩
  · rw [hx, hy]
    exact .some ⟨.plain rfl, hr⟩

/-- Alike runs begin a type selector both, or neither does. -/
theorem startsType (C : Mirrors source source' R P A T) (h : R ts us) :
    startsType ts = startsType us := by
  rcases C.cases h with ⟨rfl, rfl⟩ | ⟨k, i, j, r, i', j', r', rfl, rfl, -⟩ <;> rfl

/-! ### Attribute selectors -/

/-- Alike runs begin with the same identifier, if with any. -/
theorem identName (C : Mirrors source source' R P A T) (h : R ts us) :
    Agree Eq R (identName? ts) (identName? us) := by
  rcases C.cases h with ⟨rfl, rfl⟩ | ⟨k, i, j, r, i', j', r', rfl, rfl, hrest⟩
  · exact .none
  · cases k with
    | ident name => exact .some ⟨rfl, hrest rfl⟩
    | _ => exact .none

/-- Behind a bar alike runs give the same identifier. -/
theorem identAfterBar (C : Mirrors source source' R P A T) (h : R ts us) :
    Agree Eq R (identAfterBar? ts) (identAfterBar? us) :=
  C.behindBar C.identName rfl (fun _ _ => rfl) h

/-- Alike runs begin with the same attribute name and the same prefix. -/
theorem attributeName (C : Mirrors source source' R P A T) (h : R ts us) :
    Agree Eq R (attributeName? ts) (attributeName? us) := by
  unfold attributeName?
  rw [← C.atDelim h, ← C.atDelim h]
  split
  · exact (C.identAfterBar h).map fun h => congrArg _ h
  split
  · rename_i hstar
    exact (C.identAfterBar (C.tail h hstar)).map fun h => congrArg _ h
  · rcases (C.identName h).cases with ⟨hx, hy⟩ | ⟨first, r, _, r', hx, hy, rfl, hr⟩
    · rw [hx, hy]
      exact .none
    · rw [hx, hy]
      simp only
      rcases (C.identAfterBar hr).cases with ⟨hx, hy⟩ | ⟨name, r, _, r', hx, hy, rfl, hr⟩
      · rw [hx, hy]
        exact .some ⟨rfl, hr⟩
      · rw [hx, hy]
        exact .some ⟨rfl, hr⟩

/-- Alike runs begin with the same comparison of an attribute's value. -/
theorem attributeOperator (C : Mirrors source source' R P A T) (h : R ts us) :
    Agree Eq R (attributeOperator? ts) (attributeOperator? us) := by
  rcases C.cases h with ⟨rfl, rfl⟩ | ⟨k, i, j, r, i', j', r', rfl, rfl, hrest⟩
  · exact .none
  · cases k with
    | delim c =>
        simp only [attributeOperator?]
        split
        · exact .some ⟨rfl, hrest rfl⟩
        · split
          · have hsign := C.atDelim (c := '=') (hrest rfl)
            rw [← hsign]
            split
            · rename_i hequals
              exact .some ⟨rfl, C.tail (hrest rfl) hequals⟩
            · exact .none
          · exact .none
    | _ => exact .none

/-- Alike runs begin with the same value, which may be an identifier or a string. -/
theorem attributeValue (C : Mirrors source source' R P A T) (h : R ts us) :
    Agree Eq R (attributeValue? ts) (attributeValue? us) := by
  rcases C.cases h with ⟨rfl, rfl⟩ | ⟨k, i, j, r, i', j', r', rfl, rfl, hrest⟩
  · exact .none
  · cases k with
    | ident v => exact .some ⟨rfl, hrest rfl⟩
    | string v => exact .some ⟨rfl, hrest rfl⟩
    | _ => exact .none

/-- Alike runs have the same flag for the case of the value. -/
theorem caseFlag (C : Mirrors source source' R P A T) (h : R ts us) :
    Agree Eq R (caseFlag? ts) (caseFlag? us) := by
  unfold caseFlag?
  rcases (C.identName h).cases with ⟨hx, hy⟩ | ⟨name, r, _, r', hx, hy, rfl, hr⟩
  · rw [hx, hy]
    exact .some ⟨rfl, h⟩
  · rw [hx, hy]
    simp only
    split
    · exact .some ⟨rfl, hr⟩
    split
    · exact .some ⟨rfl, hr⟩
    · exact .none

/-- Alike runs close an attribute test both, and are alike behind it. -/
theorem closeBracket (C : Mirrors source source' R P A T) (h : R ts us) :
    Option.Rel R (closeBracket? ts) (closeBracket? us) := by
  rcases C.cases h with ⟨rfl, rfl⟩ | ⟨k, i, j, r, i', j', r', rfl, rfl, hrest⟩
  · exact .some h
  · simp only [closeBracket?]
    split
    · rename_i hclose
      exact .some (hrest (by rw [beq_iff_eq.mp hclose]; rfl))
    · exact .none

/-- The comparison, its flag and the rest behind the bracket. -/
theorem attributeMatcher (C : Mirrors source source' R P A T) (h : R ts us) :
    Option.Rel (fun x x' => x.1 = x'.1 ∧ x.2.1 = x'.2.1 ∧ R x.2.2 x'.2.2)
      (attributeMatcher? ts) (attributeMatcher? us) := by
  unfold attributeMatcher?
  rcases (C.attributeOperator h).cases with ⟨hx, hy⟩ | ⟨op, r, _, r', hx, hy, rfl, hr⟩
  · rw [hx, hy]
    exact .none
  rw [hx, hy]
  simp only [Option.bind_eq_bind, Option.bind_some]
  rcases (C.attributeValue (C.skipSpace hr)).cases with
    ⟨hx, hy⟩ | ⟨value, r, _, r', hx, hy, rfl, hr⟩
  · rw [hx, hy]
    exact .none
  rw [hx, hy]
  simp only [Option.bind_some]
  rcases (C.caseFlag (C.skipSpace hr)).cases with ⟨hx, hy⟩ | ⟨flag, r, _, r', hx, hy, rfl, hr⟩
  · rw [hx, hy]
    exact .none
  rw [hx, hy]
  simp only [Option.bind_some]
  have hclose := C.closeBracket (C.skipSpace hr)
  generalize closeBracket? (Syntax.skipSpace r) = x, closeBracket? (Syntax.skipSpace r') = y
    at hclose
  cases hclose with
  | none => exact .none
  | some hr => exact .some ⟨rfl, rfl, hr⟩

/-- An attribute test is read alike in alike runs, whatever stands between the brackets. -/
theorem attributeTest (C : Mirrors source source' R P A T) (h : R ts us) :
    Agree Eq R (attributeTest? ts) (attributeTest? us) := by
  unfold attributeTest?
  rcases (C.attributeName (C.skipSpace h)).cases with ⟨hx, hy⟩ | ⟨name, r, _, r', hx, hy, rfl, hr⟩
  · rw [hx, hy]
    exact .none
  rw [hx, hy]
  simp only
  have hclose := C.closeBracket (C.skipSpace hr)
  have hmatcher := C.attributeMatcher (C.skipSpace hr)
  generalize closeBracket? (Syntax.skipSpace r) = x, closeBracket? (Syntax.skipSpace r') = y
    at hclose
  cases hclose with
  | some hr => exact .some ⟨rfl, hr⟩
  | none =>
      generalize attributeMatcher? (Syntax.skipSpace r) = x,
        attributeMatcher? (Syntax.skipSpace r') = y at hmatcher
      cases hmatcher with
      | none => exact .none
      | @some a b hab =>
          obtain ⟨⟨op, value⟩, flag, rest⟩ := a
          obtain ⟨⟨op', value'⟩, flag', rest'⟩ := b
          obtain ⟨hop, hflag, hrest⟩ := hab
          cases hop
          cases hflag
          exact .some ⟨rfl, hrest⟩

/-! ### Pseudo-classes and pseudo-elements -/

/-- Behind the colons a name is read alike, and a function with the arguments that the relation
compares. -/
theorem readNamed (C : Mirrors source source' R P A T) (double : Bool) (hstart : P start start')
    (h : R ts us) :
    Agree (Component.Alike A T) R (readNamed? source start double ts)
      (readNamed? source' start' double us) := by
  cases ts with
  | nil =>
      obtain rfl := C.nil h
      exact .none
  | cons t r =>
      obtain ⟨⟨k, i', j'⟩, r', rfl, hkind, -, hstop, hrest⟩ := C.cons h
      obtain ⟨k, i, j⟩ := t
      cases hkind
      cases k with
      | ident name =>
          have hr := hrest rfl
          have htext := C.text hstart hstop
          simp only [readNamed?]
          split
          · exact .some ⟨.pseudoElement name false .none htext, hr⟩
          split
          · exact .some ⟨.pseudoElement name true .none htext, hr⟩
          · exact .some ⟨.pseudoClass name .none htext, hr⟩
      | function name =>
          obtain ⟨hargs, hend, hr⟩ := C.arguments h rfl
          have htext := C.text hstart hend
          simp only [readNamed?]
          split
          · exact .some ⟨.pseudoElement name false (.some hargs) htext, hr⟩
          · exact .some ⟨.pseudoClass name (.some hargs) htext, hr⟩
      | _ => exact .none

/-- A pseudo-class or a pseudo-element is read alike, one colon or two in front of it. -/
theorem readPseudo (C : Mirrors source source' R P A T) (hstart : P start start') (h : R ts us) :
    Agree (Component.Alike A T) R (readPseudo? source start ts)
      (readPseudo? source' start' us) := by
  rw [readPseudo?_eq, readPseudo?_eq]
  rcases C.cases h with ⟨rfl, rfl⟩ | ⟨k, i, j, r, i', j', r', rfl, rfl, hrest⟩
  · exact .none
  · by_cases hcolon : k = .colon
    · subst hcolon
      exact C.readNamed true hstart (hrest rfl)
    · have hnot : (k == TokenKind.colon) = false := beq_eq_false_iff_ne.mpr hcolon
      simp only [List.head?_cons, Option.any_some, hnot]
      exact C.readNamed false hstart h

/-! ### Compounds -/

/-- One simple selector is read alike from alike runs, each kind of it by its own reader. -/
theorem readSimple (C : Mirrors source source' R P A T) {t t' : Token} {r r' : List Token}
    (h : R (t :: r) (t' :: r')) :
    Agree (Component.Alike A T) R (readSimple? source t r) (readSimple? source' t' r') := by
  obtain ⟨u, v, heq, hkind, hstart, -, hrest⟩ := C.cons h
  obtain ⟨rfl, rfl⟩ := List.cons_eq_cons.mp heq
  unfold readSimple?
  rw [← hkind]
  split
  · rename_i name heq
    exact .some ⟨.plain rfl, hrest (by rw [heq]; rfl)⟩
  · rename_i heq
    exact (C.identName (hrest (by rw [heq]; rfl))).map fun h => h ▸ .plain rfl
  · rename_i heq
    exact .some ⟨.plain rfl, hrest (by rw [heq]; rfl)⟩
  · rename_i heq
    exact (C.attributeTest (hrest (by rw [heq]; rfl))).map fun h => h ▸ .plain rfl
  · rename_i heq
    exact C.readPseudo hstart (hrest (by rw [heq]; rfl))
  · exact .none

/-- Alike runs begin with the same combinator, if with any. -/
theorem combinatorMark (C : Mirrors source source' R P A T) (h : R ts us) :
    Agree Eq R (combinatorMark? ts) (combinatorMark? us) := by
  rcases C.cases h with ⟨rfl, rfl⟩ | ⟨k, i, j, r, i', j', r', rfl, rfl, hrest⟩
  · exact .none
  · cases k with
    | delim c =>
        have hr := hrest rfl
        by_cases hchild : c = '>'
        · subst hchild
          exact .some ⟨rfl, hr⟩
        by_cases hnext : c = '+'
        · subst hnext
          exact .some ⟨rfl, hr⟩
        by_cases hlater : c = '~'
        · subst hlater
          exact .some ⟨rfl, hr⟩
        by_cases hbar : c = '|'
        · subst hbar
          rcases C.cases hr with ⟨rfl, rfl⟩ | ⟨k, i, j, r, i', j', r', rfl, rfl, hmore⟩
          · exact .none
          · by_cases hbar : k = .delim '|'
            · subst hbar
              exact .some ⟨rfl, hmore rfl⟩
            · rw [combinatorMark?_bar hbar, combinatorMark?_bar hbar]
              exact .none
        · rw [combinatorMark?_delim hchild hnext hlater hbar,
            combinatorMark?_delim hchild hnext hlater hbar]
          exact .none
    | _ => exact .none

/-- Alike runs end a compound at the same place. -/
theorem endsCompound (C : Mirrors source source' R P A T) (h : R ts us) :
    endsCompound ts = endsCompound us := by
  have hmark : (combinatorMark? ts).isSome = (combinatorMark? us).isSome := by
    rcases (C.combinatorMark h).cases with ⟨hx, hy⟩ | ⟨mark, r, _, r', hx, hy, -, -⟩ <;>
      simp [hx, hy]
  unfold Syntax.endsCompound
  rw [hmark]
  rcases C.cases h with ⟨rfl, rfl⟩ | ⟨k, i, j, r, i', j', r', rfl, rfl, -⟩ <;> rfl

/-- A row of simple selectors is read alike, by induction on the length of the first run. -/
theorem readSimples (C : Mirrors source source' R P A T) (after : Bool) (h : R ts us) :
    Agree (List.Forall₂ (Component.Alike A T)) R (readSimples? source after ts)
      (readSimples? source' after us) := by
  induction hsize : ts.length using Nat.strong_induction_on generalizing ts us after with
  | _ size ih =>
      have hends := C.endsCompound h
      rcases C.cases h with ⟨rfl, rfl⟩ | ⟨k, i, j, r, i', j', r', rfl, rfl, -⟩
      · rw [readSimples?.eq_def, readSimples?.eq_def]
        exact .some ⟨.nil, h⟩
      · by_cases hend : Syntax.endsCompound (⟨k, i, j⟩ :: r) = true
        · rw [readSimples?.eq_def, readSimples?.eq_def source', ← hends, if_pos hend, if_pos hend]
          exact .some ⟨.nil, h⟩
        · have hend' : ¬Syntax.endsCompound (⟨k, i', j'⟩ :: r') = true := hends ▸ hend
          rcases (C.readSimple h).cases with ⟨hx, hy⟩ | ⟨c, rest, c', rest', hx, hy, hc, hrest⟩
          · rw [readSimples?_of_none hend hx, readSimples?_of_none hend' hy]
            exact .none
          · have hshorter : rest.length < size := by
              have hle : rest.length ≤ r.length := readSimple?_length hx
              rw [← hsize, List.length_cons]
              omega
            rw [readSimples?_of_some hend hx, readSimples?_of_some hend' hy, ← hc.isPseudo,
              ← hc.isPseudoElement]
            split
            · exact .none
            · exact (ih _ hshorter _ hrest rfl).map fun hcs => .cons hc hcs

/-- A compound is read alike: its type selector, if it has one, and the row behind it. -/
theorem readCompound (C : Mirrors source source' R P A T) (h : R ts us) :
    Agree (List.Forall₂ (Component.Alike A T)) R (readCompound? source ts)
      (readCompound? source' us) := by
  unfold readCompound?
  rw [← C.endsCompound h, ← C.startsType h]
  split
  · exact .none
  split
  · rcases (C.typeSelector h).cases with ⟨hx, hy⟩ | ⟨c, r, c', r', hx, hy, hc, hr⟩
    · rw [hx, hy]
      exact .none
    · rw [hx, hy]
      exact (C.readSimples false hr).map fun hcs => .cons hc hcs
  · exact C.readSimples false h

/-! ### Complex selectors -/

/-- What stands between two compounds is read as the same combinator, written out or blank. -/
theorem readCombinator (C : Mirrors source source' R P A T) (h : R ts us) :
    (readCombinator ts).1 = (readCombinator us).1 ∧
      R (readCombinator ts).2 (readCombinator us).2 := by
  unfold Syntax.readCombinator
  rcases (C.combinatorMark (C.skipSpace h)).cases with
    ⟨hx, hy⟩ | ⟨mark, r, _, r', hx, hy, rfl, hr⟩
  · rw [hx, hy]
    exact ⟨rfl, C.skipSpace h⟩
  · rw [hx, hy]
    exact ⟨rfl, C.skipSpace hr⟩

/-- The compounds behind the first are read alike, with the combinators in front of them. -/
theorem readJoined (C : Mirrors source source' R P A T) (h : R ts us) :
    Option.Rel
      (List.Forall₂ fun x x' => x.1 = x'.1 ∧ List.Forall₂ (Component.Alike A T) x.2 x'.2)
      (readJoined? source ts) (readJoined? source' us) := by
  induction hsize : ts.length using Nat.strong_induction_on generalizing ts us with
  | _ size ih =>
      rcases C.cases h with ⟨rfl, rfl⟩ | ⟨k, i, j, r, i', j', r', rfl, rfl, -⟩
      · rw [readJoined?, readJoined?]
        exact .some .nil
      · obtain ⟨hmark, hr⟩ := C.readCombinator h
        rcases (C.readCompound hr).cases with ⟨hx, hy⟩ | ⟨cs, rest, cs', rest', hx, hy, hcs, hrest⟩
        · rw [readJoined?_of_none hx, readJoined?_of_none hy]
          exact .none
        · have hshorter : rest.length < size := by
            have := readCompound?_length hx
            have := readCombinator_length (⟨k, i, j⟩ :: r)
            simp only at *
            omega
          rw [readJoined?_cons hx, readJoined?_cons hy]
          have hmore := ih _ hshorter hrest rfl
          generalize readJoined? source rest = x, readJoined? source' rest' = y at hmore
          cases hmore with
          | none => exact .none
          | some hmore => exact .some (.cons ⟨hmark, hcs⟩ hmore)

/-- Alike runs begin with the same leading combinator, where one may stand. -/
theorem readLeading (C : Mirrors source source' R P A T) (relative : Bool) (h : R ts us) :
    Agree Eq R (readLeading? relative ts) (readLeading? relative us) := by
  unfold readLeading?
  rcases (C.combinatorMark h).cases with ⟨hx, hy⟩ | ⟨mark, r, _, r', hx, hy, rfl, hr⟩
  · rw [hx, hy]
    exact .some ⟨rfl, h⟩
  · rw [hx, hy]
    simp only
    split
    · exact .some ⟨rfl, C.skipSpace hr⟩
    · exact .none

end Mirrors

end Syntax

namespace ComplexNode

variable {source source' : List Char} {R : List Token → List Token → Prop}
  {P : Nat → Nat → Prop} {A : Arguments → Arguments → Prop} {T : String → String → Prop}
  {ts us : List Token}

/-- **Related runs are read alike.** -/
theorem read_alike (C : Syntax.Mirrors source source' R P A T) (relative : Bool) (h : R ts us) :
    Option.Rel (Alike A T) (read? source relative ts) (read? source' relative us) := by
  unfold read?
  rcases (C.readLeading relative h).cases with ⟨hx, hy⟩ | ⟨leading, r, _, r', hx, hy, rfl, hr⟩
  · rw [hx, hy]
    exact .none
  rw [hx, hy]
  simp only [Option.bind_eq_bind, Option.bind_some]
  rcases (C.readCompound hr).cases with ⟨hx, hy⟩ | ⟨first, r, first', r', hx, hy, hfirst, hr⟩
  · rw [hx, hy]
    exact .none
  rw [hx, hy]
  simp only [Option.bind_some]
  have hjoined := C.readJoined hr
  generalize Syntax.readJoined? source r = x, Syntax.readJoined? source' r' = y at hjoined
  cases hjoined with
  | none => exact .none
  | some hjoined => exact .some ⟨rfl, hfirst, hjoined⟩

end ComplexNode

/-! ### Lengths of arguments -/

/-- The arguments of a pseudo-class or pseudo-element. -/
def Component.arguments? : Component → Option Arguments
  | pseudoClass _ args _ | pseudoElement _ args _ _ => args
  | _ => none

/-- The arguments have fewer tokens than `n`. -/
def Component.Within (n : Nat) (c : Component) : Prop :=
  ∀ args ∈ c.arguments?, args.tokens.length < n

/-- All arguments have fewer tokens than `n`. -/
structure ComplexNode.Within (n : Nat) (node : ComplexNode) : Prop where
  first : ∀ c ∈ node.first, c.Within n
  joined : ∀ step ∈ node.joined, ∀ c ∈ step.2, c.Within n

/-- Arguments shorter than a bound are shorter than each greater bound. -/
theorem Component.Within.mono {n m : Nat} {c : Component} (h : c.Within n) (hnm : n ≤ m) :
    c.Within m :=
  fun args hargs => Nat.lt_of_lt_of_le (h args hargs) hnm

/-- There is a bound for the arguments of finitely many components. -/
theorem Component.exists_within (cs : List Component) : ∃ n, ∀ c ∈ cs, c.Within n := by
  induction cs with
  | nil => exact ⟨0, fun c hc => absurd hc List.not_mem_nil⟩
  | cons c cs ih =>
      obtain ⟨n, hn⟩ := ih
      obtain ⟨m, hm⟩ : ∃ m, c.Within m := by
        unfold Within
        cases c.arguments? with
        | none => exact ⟨0, fun args hargs => by cases hargs⟩
        | some args =>
            refine ⟨args.tokens.length + 1, fun args' hargs => ?_⟩
            cases hargs
            exact Nat.lt_succ_self _
      refine ⟨max m n, List.forall_mem_cons.mpr ⟨hm.mono (Nat.le_max_left m n), fun d hd => ?_⟩⟩
      exact (hn d hd).mono (Nat.le_max_right m n)

/-- Some number bounds the lengths of all arguments. -/
theorem ComplexNode.exists_within (node : ComplexNode) : ∃ n, node.Within n := by
  obtain ⟨n, hn⟩ := Component.exists_within (node.first ++ node.joined.flatMap Prod.snd)
  refine ⟨n, fun c hc => hn c (List.mem_append_left _ hc), fun step hstep c hc => ?_⟩
  exact hn c (List.mem_append_right _ (List.mem_flatMap.mpr ⟨step, hstep, hc⟩))

/-- A run of at most `n` tokens is read like itself, with arguments of fewer tokens. -/
theorem Syntax.mirrors_within (source : List Char) (n : Nat) :
    Mirrors source source (fun ts us => ts = us ∧ ts.length ≤ n) Eq
      (fun args args' => args = args' ∧ args.tokens.length < n) Eq where
  nil h := h.1.symm
  cons := by
    rintro t r _ ⟨rfl, hlength⟩
    exact ⟨t, r, rfl, rfl, rfl, rfl, fun _ => ⟨rfl, Nat.le_of_succ_le hlength⟩⟩
  arguments := by
    rintro t _ r _ name ⟨heq, hlength⟩ -
    cases heq
    have hparts := readArguments_length source t.stop r
    rw [List.length_cons] at hlength
    exact ⟨⟨rfl, by omega⟩, rfl, rfl, by omega⟩
  text := by
    rintro i j _ _ rfl rfl
    rfl

namespace ComplexNode

/-- A component that is like itself up to the length of its arguments has arguments of that length.
-/
theorem within_of_alike {n : Nat} {c c' : Component}
    (h : c.Alike (fun args args' => args = args' ∧ args.tokens.length < n) Eq c') :
    c.Within n := by
  have hshort : ∀ {o o' : Option Arguments},
      Option.Rel (fun args args' => args = args' ∧ args.tokens.length < n) o o' →
        ∀ args ∈ o, args.tokens.length < n := by
    intro o o' hrel args hargs
    cases hrel with
    | none => cases hargs
    | some h =>
        cases hargs
        exact h.2
  cases h with
  | plain h =>
      cases c with
      | pseudoClass name args text => cases h
      | pseudoElement name args oneColon text => cases h
      | _ => exact fun _ hargs => by cases hargs
  | pseudoClass name hargs _ => exact hshort hargs
  | pseudoElement name oneColon hargs _ => exact hshort hargs

theorem exists_of_mem_mapM {α β ε : Type} {f : α → Except ε β} {xs : List α} {ys : List β} {y : β}
    (h : xs.mapM f = .ok ys) (hy : y ∈ ys) : ∃ x ∈ xs, f x = .ok y := by
  have hrow := mapM_eq_ok_iff.mp h
  clear h
  induction hrow with
  | nil => cases hy
  | @cons x z xs ys hx _ ih =>
      rcases List.mem_cons.mp hy with rfl | hy
      · exact ⟨x, List.mem_cons_self, hx⟩
      · obtain ⟨w, hw, hread⟩ := ih hy
        exact ⟨w, List.mem_cons_of_mem x hw, hread⟩

/-- **The arguments in a member** have fewer tokens than it. -/
theorem ofTokens_within {source : List Char} {relative : Bool} {ts : List Token}
    {node : ComplexNode} {n : Nat} (hread : ofTokens source relative ts = .ok node)
    (hlength : ts.length ≤ n) : node.Within n := by
  have hsame := read_alike (Syntax.mirrors_within source n) relative
    ⟨rfl, Nat.le_trans (Token.length_trim_le ts) hlength⟩
  unfold ofTokens at hread
  generalize read? source relative (Token.trim ts) = o at hread hsame
  cases o with
  | none => cases hread
  | some _ =>
      cases hread
      cases hsame with
      | some h =>
          have hall : ∀ {cs : List Component},
              List.Forall₂ (Component.Alike _ Eq) cs cs → ∀ c ∈ cs, c.Within n :=
            fun hcs c hc => within_of_alike (List.forall₂_same.mp hcs c hc)
          exact ⟨hall h.first, fun step hstep => hall (List.forall₂_same.mp h.joined step hstep).2⟩

/-- The arguments in a list have fewer tokens than it. -/
theorem listOfTokens_within {source : List Char} {relative : Bool} {ts : List Token}
    {nodes : List ComplexNode} {n : Nat} (hread : listOfTokens source relative ts = .ok nodes)
    (hlength : ts.length ≤ n) {node : ComplexNode} (hnode : node ∈ nodes) : node.Within n := by
  obtain ⟨m, hm, hread⟩ := exists_of_mem_mapM hread hnode
  exact ofTokens_within hread (Nat.le_trans (Token.length_le_of_mem_splitList hm) hlength)

end ComplexNode

end Selectors

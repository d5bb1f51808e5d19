import Mathlib.Logic.Relation
import Selectors.Syntax.Parser

/-!
# The grammar of complex selectors

The grammar says which runs of tokens are complex selectors, without saying how they are read.  A
rule relates a run to what is left of it behind a part that the rule derives.  Rules are put
together from single tokens by sequence, choice, option and repetition; what is left is always a
suffix, and a rule carries the proof of it.

* `Rule` and its combinators are the notation of the grammar.
* `Grammar.attributeSelector`, `Grammar.pseudoClass`, `Grammar.pseudoElement`, `Grammar.compound`
  and `Grammar.combinator` are its main rules, and `Grammar.complex` is where it begins.
-/

namespace Selectors

/-- A rule of a grammar: which parts at the front of a run it derives, told by what they leave. -/
structure Rule where
  leaves : List Token → List Token → Prop
  suffix : ∀ {ts rest}, leaves ts rest → rest <:+ ts

namespace Rule

instance : CoeFun Rule fun _ => List Token → List Token → Prop :=
  ⟨leaves⟩

/-! ### Notation -/

/-- The empty part. -/
def nothing : Rule where
  leaves ts rest := rest = ts
  suffix h := h ▸ List.suffix_refl _

/-- The empty part at the end of the run. -/
def atEnd : Rule where
  leaves ts rest := ts = [] ∧ rest = []
  suffix h := h.2 ▸ List.nil_suffix

/-- One token of such a kind. -/
def one (p : TokenKind → Prop) : Rule where
  leaves ts rest := ∃ t, ts = t :: rest ∧ p t.kind
  suffix h := by
    obtain ⟨t, rfl, -⟩ := h
    exact List.suffix_cons t _

/-- One token of the kind. -/
def token (k : TokenKind) : Rule :=
  one (· = k)

/-- One part behind the other. -/
instance : Append Rule where
  append r s :=
    { leaves := fun ts rest => ∃ mid, r ts mid ∧ s mid rest
      suffix := by
        intro ts rest h
        obtain ⟨mid, hr, hs⟩ := h
        exact (s.suffix hs).trans (r.suffix hr) }

/-- A part of one kind or of the other. -/
instance : Union Rule where
  union r s :=
    { leaves := fun ts rest => r ts rest ∨ s ts rest
      suffix := fun h => h.elim r.suffix s.suffix }

/-- A part that may be missing. -/
def opt (r : Rule) : Rule :=
  nothing ∪ r

/-- Any number of parts, one behind the other. -/
def many (r : Rule) : Rule where
  leaves := Relation.ReflTransGen r.leaves
  suffix h := by
    induction h with
    | refl => exact List.suffix_refl _
    | tail _ hlast ih => exact (r.suffix hlast).trans ih

/-- A part that has a token. -/
def filled (r : Rule) : Rule where
  leaves ts rest := r ts rest ∧ rest ≠ ts
  suffix h := r.suffix h.1

variable {r : Rule} {p : TokenKind → Prop} {k : TokenKind} {t : Token} {ts rest : List Token}

@[simp] theorem one_cons : one p (t :: ts) rest ↔ p t.kind ∧ rest = ts := by
  constructor
  · intro h
    obtain ⟨u, hu, hp⟩ := h
    cases hu
    exact ⟨hp, rfl⟩
  · intro h
    obtain ⟨hp, rfl⟩ := h
    exact ⟨t, rfl, hp⟩

@[simp] theorem token_cons : token k (t :: ts) rest ↔ t.kind = k ∧ rest = ts :=
  one_cons

@[simp] theorem not_one_nil : ¬one p [] rest := by
  intro h
  obtain ⟨t, ht, -⟩ := h
  cases ht

@[simp] theorem not_token_nil : ¬token k [] rest :=
  not_one_nil

/-- Any number of parts: none, or a first one and more. -/
theorem many_iff : many r ts rest ↔ rest = ts ∨ ∃ mid, r ts mid ∧ many r mid rest := by
  constructor
  · intro h
    rcases Relation.ReflTransGen.cases_head h with rfl | ⟨mid, hfirst, hmore⟩
    · exact Or.inl rfl
    · exact Or.inr ⟨mid, hfirst, hmore⟩
  · intro h
    rcases h with rfl | ⟨mid, hfirst, hmore⟩
    · exact Relation.ReflTransGen.refl
    · exact Relation.ReflTransGen.head hfirst hmore

end Rule

/-- What a bracket is closed by. -/
def Bracket.closing : Bracket → TokenKind
  | .round => .rightParen
  | .square => .rightBracket

namespace Grammar

open Rule

/-! ### Names and gaps -/

def spaces : Rule :=
  many (token .whitespace)

def ident : Rule :=
  one fun k => ∃ name, k = .ident name

def bar : Rule :=
  token (.delim '|')

/-- A closing token, which the end of the run replaces. -/
def closes (k : TokenKind) : Rule :=
  token k ∪ atEnd

/-- `name` or `*` -/
def typeName : Rule :=
  ident ∪ token (.delim '*')

/-- `name|`, `*|` or `|` -/
def namespacePrefix : Rule :=
  opt typeName ++ bar

def typeSelector : Rule :=
  opt namespacePrefix ++ typeName

/-! ### Attribute selectors -/

def attributeName : Rule :=
  opt namespacePrefix ++ ident

/-- `=`, or a mark directly before it -/
def operator : Rule :=
  token (.delim '=') ∪
    (one (fun k => ∃ c ∈ ['~', '|', '^', '$', '*'], k = .delim c) ++ token (.delim '='))

def value : Rule :=
  ident ∪ one fun k => ∃ v, k = .string v

/-- `i` or `s`, in any case -/
def flag : Rule :=
  one fun k => ∃ name, k = .ident name ∧
    (Text.sameLetters name "i" = true ∨ Text.sameLetters name "s" = true)

def comparison : Rule :=
  operator ++ (spaces ++ (value ++ (spaces ++ opt (flag ++ spaces))))

/-- An attribute selector behind its opening bracket. -/
def attributeBody : Rule :=
  spaces ++ (attributeName ++ (spaces ++ (opt comparison ++ closes .rightBracket)))

def attributeSelector : Rule :=
  token .leftBracket ++ attributeBody

/-! ### Pseudo-classes and pseudo-elements -/

/-- Any tokens that may stand in a selector, with brackets in pairs; the end of the run closes what
is still open. -/
inductive Nested : List Token → List Token → Prop
  | nil {ts} : Nested ts ts
  | plain {t ts rest} (hallowed : t.kind.forbidden = false) (hopens : t.kind.opens? = none)
      (hcloses : t.kind.closes? = none) (more : Nested ts rest) : Nested (t :: ts) rest
  | bracket {t b ts inner after rest} (hopens : t.kind.opens? = some b)
      (inside : Nested ts inner) (close : closes b.closing inner after)
      (more : Nested after rest) : Nested (t :: ts) rest

/-- What a nested part leaves is the end of the run. -/
theorem Nested.suffix {ts rest : List Token} (h : Nested ts rest) : rest <:+ ts := by
  induction h with
  | nil => exact List.suffix_refl _
  | plain _ _ _ _ ih => exact ih.trans (List.suffix_cons _ _)
  | bracket _ _ close _ ihInside ihMore =>
      exact ((ihMore.trans ((closes _).suffix close)).trans ihInside).trans (List.suffix_cons _ _)

def anyValue : Rule where
  leaves := Nested
  suffix := Nested.suffix

/-- What stands between the parentheses of a function, and the closing one. -/
def arguments : Rule :=
  anyValue ++ closes .rightParen

def function : Rule :=
  one (fun k => ∃ name, k = .function name) ++ arguments

/-- `before`, `after`, `first-line` or `first-letter`, in any case -/
def IsLegacy (name : String) : Prop :=
  Text.lower name ∈ ["before", "after", "first-line", "first-letter"]

/-- A name that is a pseudo-element's also behind a single colon. -/
def legacyName : Rule :=
  one fun k => ∃ name, k = .ident name ∧ IsLegacy name

/-- A name that is a pseudo-class's behind a single colon. -/
def className : Rule :=
  one fun k => ∃ name, k = .ident name ∧ ¬IsLegacy name

def pseudoClass : Rule :=
  token .colon ++ (className ∪ function)

def pseudoElement : Rule :=
  token .colon ++ (legacyName ∪ (token .colon ++ (ident ∪ function)))

/-! ### Compounds -/

/-- What may stand in a compound before a pseudo-element, type selectors and pseudo-classes
apart. -/
def subclass : Rule :=
  one (fun k => ∃ name, k = .hash name .id) ∪
    ((token (.delim '.') ++ ident) ∪ (attributeSelector ∪ token (.delim '&')))

/-- What may follow a pseudo-element in its compound. -/
def pseudos : Rule :=
  many (pseudoClass ∪ pseudoElement)

/-- The simple selectors up to the end of a compound, behind a pseudo-element or not. -/
def simples (after : Bool) : Rule :=
  if after then pseudos else many (subclass ∪ pseudoClass) ++ opt (pseudoElement ++ pseudos)

def compound : Rule :=
  filled (opt typeSelector ++ simples false)

/-! ### Complex selectors -/

/-- `>`, `+`, `~` or `||` -/
def mark : Rule :=
  token (.delim '>') ∪ (token (.delim '+') ∪ (token (.delim '~') ∪ (bar ++ bar)))

def combinator : Rule :=
  filled spaces ∪ (spaces ++ (mark ++ spaces))

/-- A combinator that may stand at the front, if the selector is relative. -/
def leading (relative : Bool) : Rule :=
  if relative then opt combinator else nothing

def complex (relative : Bool) : Rule :=
  leading relative ++ (compound ++ many (combinator ++ compound))

end Grammar

end Selectors

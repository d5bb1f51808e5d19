import Selectors.Proofs.Token.Parts

/-!
# Texts in functions

A text is put into a function by writing a colon, a name and a parenthesis before it and one
parenthesis more behind it.  What stands before is read by itself, whatever follows.  What stands
behind is not: it may end up in a string, a comment or an address that the text leaves open.

* `Wrapper` are three ways of putting a text into functions.
* `TokenStream.Closed` texts are read by themselves in these functions.
* `TokenStream.Closed.kindsOf_append` is what that says of the parentheses behind the text;
  `TokenStream.kindsOf_is` and its like are about what stands before it.
-/

namespace Selectors

namespace Token

variable {c : Char} {name s : List Char} {o : Nat}

/-- A name ends where no character goes on with it. -/
theorem takeName_append (h : ∀ c ∈ name, continuesName c = true) (hend : nameChar? s = none) :
    takeName (name ++ s) = (name, s) := by
  induction name with
  | nil => exact takeName_of_none hend
  | cons c name ih =>
      have hchar : nameChar? (c :: (name ++ s)) = some (c, name ++ s) := by
        simp [nameChar?, h c List.mem_cons_self]
      rw [List.cons_append, takeName_of_some hchar, ih fun d hd => h d (List.mem_cons_of_mem c hd)]

/-- A name with a parenthesis behind it is a function, whatever follows, unless it is that of an
address. -/
theorem scanName_function (h : ∀ c ∈ name, continuesName c = true)
    (hurl : Text.sameLetters (String.ofList name) "url" = false) :
    scanName (name ++ '(' :: s) = (.function (String.ofList name), s) := by
  unfold scanName
  rw [takeName_append h rfl]
  simp [hurl]

/-- The kinds of the tokens do not depend on where the text begins. -/
theorem map_kind_lexFrom (s : List Char) (o : Nat) :
    (lexFrom s o).map kind = (lexFrom s 0).map kind := by
  have hmoved := lexFrom_add s 0 o
  rw [Nat.zero_add] at hmoved
  rw [hmoved, map_kind_moved]

/-- The kinds of the tokens, one by one. -/
theorem map_kind_lexFrom_cons (hslash : c ≠ '/') :
    (lexFrom (c :: s) o).map kind = (scan c s).1 :: (lexFrom (scan c s).2 0).map kind := by
  rw [lexFrom_of_cons (skipComments_cons hslash), List.map_cons, map_kind_lexFrom]
  rfl

/-- The tokens of a text behind a colon and the name of a function. -/
theorem map_kind_lexFrom_function (hname : ∀ d ∈ c :: name, continuesName d = true)
    (hscan : ∀ r, scan c r = scanName (c :: r)) (hslash : c ≠ '/')
    (hurl : Text.sameLetters (String.ofList (c :: name)) "url" = false) (s : List Char) :
    (lexFrom (':' :: c :: name ++ '(' :: s) 0).map kind =
      .colon :: .function (String.ofList (c :: name)) :: (lexFrom s 0).map kind := by
  have hcolon : ∀ r, scan ':' r = (.colon, r) := fun _ => rfl
  have hfunction : scan c (name ++ '(' :: s) = (.function (String.ofList (c :: name)), s) := by
    rw [hscan]
    exact scanName_function hname hurl
  rw [List.cons_append, List.cons_append, map_kind_lexFrom_cons (by decide), hcolon,
    map_kind_lexFrom_cons hslash, hfunction]

/-- Any other character is left as it is. -/
theorem normalize_cons {c : Char} (hreturn : c ≠ '\r') (hfeed : c ≠ '\x0c') (hzero : c ≠ '\x00')
    (s : List Char) : normalize (c :: s) = c :: normalize s := by
  rw [normalize.eq_3 c s fun _ h => absurd h hreturn]
  simp [hreturn, hfeed, hzero]

/-- What is normal in front of a text stays as it is. -/
theorem normalize_append {front : List Char} (h : Normal front) (s : List Char) :
    normalize (front ++ s) = front ++ normalize s := by
  induction front with
  | nil => rfl
  | cons c front ih =>
      obtain ⟨hreturn, hfeed, hzero⟩ := h c List.mem_cons_self
      rw [List.cons_append, normalize_cons hreturn hfeed hzero,
        ih fun d hd => h d (List.mem_cons_of_mem c hd), List.cons_append]

end Token

/-- The functions that a text may be put into without a change of what it matches. -/
inductive Wrapper where
  | is
  | whereAny
  | notNot
  deriving DecidableEq, Repr

/-- The text in the functions. -/
def Wrapper.wrap : Wrapper → String → String
  | is, text => ":is(" ++ text ++ ")"
  | whereAny, text => ":where(" ++ text ++ ")"
  | notNot, text => ":not(:not(" ++ text ++ "))"

namespace TokenStream

open Token

/-- The kinds of the tokens of a text. -/
def kindsOf (text : String) : List TokenKind :=
  (read text).tokens.map kind

/-- The tokens of a text between two others are those of the three in sequence. -/
def InSequence (before text after : String) : Prop :=
  kindsOf (before ++ text ++ after) = kindsOf before ++ kindsOf text ++ kindsOf after

instance (before text after : String) : Decidable (InSequence before text after) :=
  inferInstanceAs (Decidable (_ = _))

/-- A text that leaves nothing open into which a parenthesis behind it would be read. -/
structure Closed (text : String) : Prop where
  is : InSequence ":is(" text ")"
  notNot : InSequence ":not(:not(" text "))"

variable {text : String}

/-- **What stands before a text** is read by itself if it is a colon with the name of a function. -/
theorem kindsOf_function {before : String} {c : Char} {name : List Char}
    (hbefore : before.toList = ':' :: c :: name ++ ['('])
    (hnormal : normalize before.toList = before.toList)
    (hname : (c :: name).all continuesName = true) (hscan : ∀ r, scan c r = scanName (c :: r))
    (hslash : c ≠ '/') (hurl : Text.sameLetters (String.ofList (c :: name)) "url" = false)
    (text : String) :
    kindsOf (before ++ text) = .colon :: .function (String.ofList (c :: name)) :: kindsOf text := by
  have htext : normalize (before ++ text).toList =
      ':' :: c :: name ++ '(' :: normalize text.toList := by
    rw [String.toList_append, normalize_append (hnormal ▸ normal_normalize _), hbefore]
    simp
  unfold kindsOf read lex
  dsimp only
  rw [htext, map_kind_lexFrom_function (List.all_eq_true.mp hname) hscan hslash hurl]

theorem kindsOf_is (text : String) :
    kindsOf (":is(" ++ text) = .colon :: .function "is" :: kindsOf text :=
  kindsOf_function rfl (by decide +kernel) (by decide +kernel) (fun _ => rfl) (by decide)
    (by decide +kernel) text

theorem kindsOf_where (text : String) :
    kindsOf (":where(" ++ text) = .colon :: .function "where" :: kindsOf text :=
  kindsOf_function rfl (by decide +kernel) (by decide +kernel) (fun _ => rfl) (by decide)
    (by decide +kernel) text

theorem kindsOf_not (text : String) :
    kindsOf (":not(" ++ text) = .colon :: .function "not" :: kindsOf text :=
  kindsOf_function rfl (by decide +kernel) (by decide +kernel) (fun _ => rfl) (by decide)
    (by decide +kernel) text

theorem kindsOf_notNot (text : String) :
    kindsOf (":not(:not(" ++ text) =
      .colon :: .function "not" :: .colon :: .function "not" :: kindsOf text := by
  have hbefore : ":not(:not(" ++ text = ":not(" ++ (":not(" ++ text) := by
    rw [← String.append_assoc]
    rfl
  rw [hbefore, kindsOf_not, kindsOf_not]

/-- **A closed text** is read by itself before the parentheses behind it. -/
theorem Closed.kindsOf_append (h : Closed text) :
    kindsOf (text ++ ")") = kindsOf text ++ [.rightParen] ∧
      kindsOf (text ++ "))") = kindsOf text ++ [.rightParen, .rightParen] := by
  have hnil : kindsOf "" = [] := by
    decide +kernel
  have hone : kindsOf ")" = [.rightParen] := by
    decide +kernel
  have htwo : kindsOf "))" = [.rightParen, .rightParen] := by
    decide +kernel
  have his := h.is
  have hnot := h.notNot
  unfold InSequence at his hnot
  have hisNil := kindsOf_is ""
  have hnotNil := kindsOf_notNot ""
  rw [String.append_empty, hnil] at hisNil hnotNil
  rw [String.append_assoc, kindsOf_is, hisNil, hone] at his
  rw [String.append_assoc, kindsOf_notNot, hnotNil, htwo] at hnot
  constructor
  · simpa using his
  · simpa using hnot

end TokenStream

end Selectors

import Selectors.Proofs.Formula.Grammar
import Selectors.Proofs.Token.Wrapping

/-!
# Three spellings of a formula

A step and an offset can be written without a space, with one before the sign of the offset, or with
a second one behind it.  The tokens differ: digits that follow a minus stand in the unit of the
dimension, a sign may belong to a number or be a token of its own.  What is read is the same, with
one exception.  The limits lie unevenly around zero, and digits are held within them before their
minus is looked at, so the least offset is kept in one of the spellings only.

* `AnB.Spelling` lists the spellings, and `AnB.Spelling.kinds` their tokens.
* `AnB.Spelling.kindsOf_text` reads the tokens, and `AnB.Spelling.formula_kinds` derives the
  formula.
* `AnB.Spelling.ofTokens?_text` is the result.
-/

namespace Selectors

namespace Token

/-! ### Numbers -/

/-- A number does not go on here. -/
def EndsNumber (s : List Char) : Prop :=
  ∀ c ∈ s.head?, c.isDigit = false ∧ c ≠ '.' ∧ c ≠ 'e' ∧ c ≠ 'E'

/-- A sign as it is written. -/
def signChars : Option Sign → List Char
  | none => []
  | some .plus => ['+']
  | some .minus => ['-']

variable {sign : Option Sign} {ds rest : List Char} {n : Nat}

theorem natOfDigits_toDigits (n : Nat) : Text.natOfDigits (Nat.toDigits 10 n) = n :=
  Nat.ofDigitChars_toDigits (by decide) (by decide)

theorem isDigit_of_mem_toDigits {c : Char} (hc : c ∈ Nat.toDigits 10 n) : c.isDigit = true :=
  Nat.isDigit_of_mem_toDigits (by decide) (by decide) hc

theorem exists_toDigits (n : Nat) : ∃ d ds, Nat.toDigits 10 n = d :: ds ∧ d.isDigit = true := by
  obtain ⟨d, ds, hds⟩ := List.exists_cons_of_ne_nil
    (List.ne_nil_of_length_pos (Nat.length_toDigits_pos (b := 10) (n := n)))
  exact ⟨d, ds, hds, isDigit_of_mem_toDigits (hds ▸ List.mem_cons_self)⟩

theorem ne_of_isDigit {c d : Char} (hc : c.isDigit = true) (hd : d.isDigit = false) : c ≠ d := by
  rintro rfl
  rw [hc] at hd
  cases hd

/-- A sign is taken from in front of a digit. -/
theorem takeSign_signChars {d : Char} (hd : d.isDigit = true) :
    takeSign (signChars sign ++ d :: ds) = (sign, d :: ds) := by
  cases sign with
  | none => exact takeSign_of_ne (ne_of_isDigit hd rfl) (ne_of_isDigit hd rfl)
  | some s => cases s <;> rfl

/-- No decimal places follow a number that ends. -/
theorem takePlaces_of_ends (hend : EndsNumber rest) : takePlaces rest = ([], rest) := by
  rw [takePlaces_eq, if_neg]
  intro h
  simp only [Bool.and_eq_true, decide_eq_true_eq] at h
  exact (hend '.' h.1).2.1 rfl

/-- No power of ten follows a number that ends. -/
theorem takePower_of_ends (hend : EndsNumber rest) : takePower rest = (none, rest) := by
  cases rest with
  | nil => rfl
  | cons c r =>
      obtain ⟨-, -, hsmall, hcapital⟩ := hend c rfl
      simp [takePower, hsmall, hcapital]

/-- A whole number in digits is read up to where it ends. -/
theorem takeNumeral_toDigits (sign : Option Sign) (n : Nat) (hend : EndsNumber rest) :
    takeNumeral (signChars sign ++ (Nat.toDigits 10 n ++ rest)) = (⟨sign, n, 0, none⟩, rest) := by
  obtain ⟨d, ds, hds, hd⟩ := exists_toDigits n
  have hsign : takeSign (signChars sign ++ (Nat.toDigits 10 n ++ rest)) =
      (sign, Nat.toDigits 10 n ++ rest) := by
    rw [hds, List.cons_append]
    exact takeSign_signChars hd
  have hstop : ∀ c ∈ rest.head?, ¬c.isDigit = true := fun c hc => by
    simp [(hend c hc).1]
  have htake : (Nat.toDigits 10 n ++ rest).takeWhile Char.isDigit = Nat.toDigits 10 n := by
    rw [List.takeWhile_append_of_pos fun c hc => isDigit_of_mem_toDigits hc]
    cases rest with
    | nil => simp
    | cons c r => rw [List.takeWhile_cons_of_neg (hstop c rfl), List.append_nil]
  have hdrop : (Nat.toDigits 10 n ++ rest).dropWhile Char.isDigit = rest := by
    rw [List.dropWhile_append_of_pos fun c hc => isDigit_of_mem_toDigits hc]
    cases rest with
    | nil => rfl
    | cons c r => rw [List.dropWhile_cons_of_neg (hstop c rfl)]
  unfold takeNumeral
  rw [hsign]
  dsimp only
  rw [hdrop, takePlaces_of_ends hend]
  dsimp only
  rw [takePower_of_ends hend, htake, List.append_nil, natOfDigits_toDigits]
  rfl

/-- A number begins with its sign, or with its first digit. -/
theorem atNumber_signChars (sign : Option Sign) (ds : List Char) {d : Char}
    (hd : d.isDigit = true) :
    atNumber (signChars sign ++ d :: ds) = true := by
  rw [atNumber_eq, takeSign_signChars hd, atUnsigned_eq]
  simp [hd]

/-- Digits, with a sign or without, are the start of a number. -/
theorem scan_signChars (sign : Option Sign) (ds : List Char) {d : Char}
    (hd : d.isDigit = true) :
    ∃ c r, signChars sign ++ d :: ds = c :: r ∧ c ≠ '/' ∧
      scan c r = scanNumber (signChars sign ++ d :: ds) := by
  have hnumber := atNumber_signChars sign ds hd
  match sign with
  | some .plus => exact ⟨'+', d :: ds, rfl, by decide, if_pos hnumber⟩
  | some .minus => exact ⟨'-', d :: ds, rfl, by decide, if_pos hnumber⟩
  | none =>
      have hne : ∀ c : Char, c.isDigit = false → (d == c) = false := fun c hc =>
        beq_eq_false_iff_ne.mpr (ne_of_isDigit hd hc)
      refine ⟨d, ds, rfl, ne_of_isDigit hd rfl, ?_⟩
      unfold scan isBlank
      simp [hne, hd, signChars]

/-- The first token of a text that begins with digits is what is read as a number. -/
theorem map_kind_lexFrom_number (sign : Option Sign) (n : Nat) (rest : List Char) :
    (lexFrom (signChars sign ++ (Nat.toDigits 10 n ++ rest)) 0).map kind =
      (scanNumber (signChars sign ++ (Nat.toDigits 10 n ++ rest))).1 ::
        (lexFrom (scanNumber (signChars sign ++ (Nat.toDigits 10 n ++ rest))).2 0).map kind := by
  obtain ⟨d, ds, hds, hd⟩ := exists_toDigits n
  obtain ⟨c, r, hchars, hslash, hscan⟩ := scan_signChars sign (ds ++ rest) hd
  rw [hds, List.cons_append, ← hscan, hchars, map_kind_lexFrom_cons hslash]

theorem map_kind_lexFrom_nil : (lexFrom [] 0).map kind = [] := by
  rw [lexFrom_nil, List.map_nil]

/-- A number at the end of a text. -/
theorem map_kind_lexFrom_last (sign : Option Sign) (n : Nat) :
    (lexFrom (signChars sign ++ Nat.toDigits 10 n) 0).map kind =
      [.number ⟨sign, n, 0, none⟩] := by
  have hend : EndsNumber [] := fun c hc => by cases hc
  have hnumeral := takeNumeral_toDigits sign n hend
  have hscan : scanNumber (signChars sign ++ (Nat.toDigits 10 n ++ [])) =
      (.number ⟨sign, n, 0, none⟩, []) := by
    unfold scanNumber
    rw [hnumeral]
    rfl
  have hkinds := map_kind_lexFrom_number sign n []
  rw [hscan, List.append_nil] at hkinds
  rw [hkinds, map_kind_lexFrom_nil]

/-- A number with a unit that begins with the letter `n`. -/
theorem map_kind_lexFrom_dimension (sign : Option Sign) (n : Nat) {name : List Char}
    (hname : ∀ c ∈ name, continuesName c = true) (hend : nameChar? rest = none) :
    (lexFrom (signChars sign ++ (Nat.toDigits 10 n ++ 'n' :: (name ++ rest))) 0).map kind =
      .dimension ⟨sign, n, 0, none⟩ (String.ofList ('n' :: name)) ::
        (lexFrom rest 0).map kind := by
  have hstops : EndsNumber ('n' :: (name ++ rest)) := fun c hc => by
    cases hc
    decide
  have hnumeral := takeNumeral_toDigits sign n hstops
  have hcontinues : ∀ c ∈ 'n' :: name, continuesName c = true :=
    List.forall_mem_cons.mpr ⟨rfl, hname⟩
  have hunit : takeName ('n' :: (name ++ rest)) = ('n' :: name, rest) :=
    takeName_append hcontinues hend
  have hscan : scanNumber (signChars sign ++ (Nat.toDigits 10 n ++ 'n' :: (name ++ rest))) =
      (.dimension ⟨sign, n, 0, none⟩ (String.ofList ('n' :: name)), rest) := by
    unfold scanNumber
    rw [hnumeral]
    dsimp only
    rw [if_pos (by rw [atName_cons_of_ne (by decide) (by decide)]; decide), hunit]
  rw [map_kind_lexFrom_number, hscan]

/-- One space before what is no space. -/
theorem map_kind_lexFrom_space {c : Char} (hc : isBlank c = false) (s : List Char) :
    (lexFrom (' ' :: c :: s) 0).map kind = .whitespace :: (lexFrom (c :: s) 0).map kind := by
  have hscan : scan ' ' (c :: s) = (.whitespace, c :: s) := by
    change (TokenKind.whitespace, (c :: s).dropWhile isBlank) = _
    rw [List.dropWhile_cons_of_neg (by simp [hc])]
  rw [map_kind_lexFrom_cons (by decide), hscan]

end Token

namespace AnB

open Token

/-- Three ways of writing the sign of an offset: right behind the step, with a space before it, or
with one on either side. -/
inductive Spelling where
  | attached
  | spaced
  | separated
  deriving DecidableEq, Repr

/-- The sign of an offset, which is written also where nothing is taken away. -/
def signOf (b : Int) : Sign :=
  if b < 0 then .minus else .plus

namespace Spelling

/-- The step and the offset, as they are written. -/
def text (p : Spelling) (a b : Int) : String :=
  let sign := if b < 0 then "-" else "+"
  match p with
  | attached => toString a ++ "n" ++ sign ++ toString b.natAbs
  | spaced => toString a ++ "n " ++ sign ++ toString b.natAbs
  | separated => toString a ++ "n " ++ sign ++ " " ++ toString b.natAbs

/-- A number with a sign where it is negative. -/
def step (a : Int) : Numeral :=
  ⟨if a < 0 then some .minus else none, a.natAbs, 0, none⟩

/-- The tokens of a spelling. -/
def kinds (p : Spelling) (a b : Int) : List TokenKind :=
  match p with
  | attached =>
    if b < 0 then
      [.dimension (step a) (String.ofList ('n' :: '-' :: Nat.toDigits 10 b.natAbs))]
    else [.dimension (step a) "n", .number ⟨some .plus, b.natAbs, 0, none⟩]
  | spaced =>
    [.dimension (step a) "n", .whitespace, .number ⟨some (signOf b), b.natAbs, 0, none⟩]
  | separated =>
    [.dimension (step a) "n", .whitespace, .delim (if b < 0 then '-' else '+'), .whitespace,
      .number ⟨none, b.natAbs, 0, none⟩]

/-! ### Reading -/

variable {a b : Int}

/-- A whole number is written with its sign and its digits. -/
theorem toList_repr (a : Int) :
    a.repr.toList = signChars (step a).sign ++ Nat.toDigits 10 a.natAbs := by
  rw [Int.repr_eq_if]
  unfold step
  by_cases ha : a < 0
  · have habs : (-a).toNat = a.natAbs := by omega
    rw [if_neg (by omega), if_pos ha, String.toList_append, Nat.toList_repr, habs]
    rfl
  · have habs : a.toNat = a.natAbs := by omega
    rw [if_pos (by omega), if_neg ha, Nat.toList_repr, habs]
    rfl

/-- The sign of an offset is written out. -/
theorem toList_sign (b : Int) :
    (if b < 0 then "-" else "+").toList = signChars (some (signOf b)) := by
  unfold signOf
  split <;> rfl

/-- Behind the step stand the letter, and the offset with its sign. -/
theorem toList_text (p : Spelling) (a b : Int) :
    (p.text a b).toList = signChars (step a).sign ++ (Nat.toDigits 10 a.natAbs ++ 'n' ::
      match p with
      | attached => signChars (some (signOf b)) ++ Nat.toDigits 10 b.natAbs
      | spaced => ' ' :: (signChars (some (signOf b)) ++ Nat.toDigits 10 b.natAbs)
      | separated => ' ' :: (signChars (some (signOf b)) ++ ' ' :: Nat.toDigits 10 b.natAbs)) := by
  cases p <;> simp [text, toList_repr, toList_sign]

theorem normal_signChars (sign : Option Sign) : Token.Normal (signChars sign) := by
  match sign with
  | none => exact fun _ hc => absurd hc List.not_mem_nil
  | some .plus => exact List.forall_mem_singleton.mpr (by decide)
  | some .minus => exact List.forall_mem_singleton.mpr (by decide)

theorem normal_toDigits (n : Nat) : Token.Normal (Nat.toDigits 10 n) := fun _ hc =>
  have hdigit := isDigit_of_mem_toDigits hc
  ⟨ne_of_isDigit hdigit rfl, ne_of_isDigit hdigit rfl, ne_of_isDigit hdigit rfl⟩

/-- The text of a spelling is left alone by the normalization of texts. -/
theorem normalize_text (p : Spelling) (a b : Int) :
    normalize (p.text a b).toList = (p.text a b).toList := by
  refine normalize_of_normal ?_
  rw [toList_text]
  unfold Token.Normal
  simp only [List.forall_mem_append, List.forall_mem_cons]
  refine ⟨normal_signChars _, normal_toDigits _, by decide, ?_⟩
  cases p with
  | attached => exact List.forall_mem_append.mpr ⟨normal_signChars _, normal_toDigits _⟩
  | spaced =>
      simp only [List.forall_mem_append, List.forall_mem_cons]
      exact ⟨by decide, normal_signChars _, normal_toDigits _⟩
  | separated =>
      simp only [List.forall_mem_append, List.forall_mem_cons]
      exact ⟨by decide, normal_signChars _, by decide, normal_toDigits _⟩

/-- A minus and the digits behind it go on with a name. -/
theorem continuesName_of_digits {n : Nat} {c : Char} (hc : c ∈ '-' :: Nat.toDigits 10 n) :
    continuesName c = true := by
  rcases List.mem_cons.mp hc with rfl | hc
  · rfl
  · simp [continuesName, isDigit_of_mem_toDigits hc]

/-- The step takes the letter alone if no name goes on behind it. -/
theorem map_kind_lexFrom_step (a : Int) {rest : List Char} (hend : nameChar? rest = none) :
    (lexFrom (signChars (step a).sign ++ (Nat.toDigits 10 a.natAbs ++ 'n' :: rest)) 0).map kind =
      .dimension (step a) "n" :: (lexFrom rest 0).map kind :=
  have hnone : ∀ c ∈ ([] : List Char), continuesName c = true := fun _ hc =>
    absurd hc List.not_mem_nil
  map_kind_lexFrom_dimension (step a).sign a.natAbs hnone hend

theorem isBlank_of_isDigit {d : Char} (hd : d.isDigit = true) : isBlank d = false := by
  unfold isBlank
  simp [ne_of_isDigit hd]

/-- The sign is one character, and between two spaces a token of its own. -/
theorem exists_sign (b : Int) :
    ∃ c, signChars (some (signOf b)) = [c] ∧ isBlank c = false ∧ c ≠ '/' ∧
      ∀ s, scan c (' ' :: s) = (.delim (if b < 0 then '-' else '+'), ' ' :: s) := by
  unfold signOf
  split
  · exact ⟨'-', rfl, rfl, by decide, fun _ => rfl⟩
  · exact ⟨'+', rfl, rfl, by decide, fun _ => rfl⟩

/-- **The tokens of each spelling.** -/
theorem kindsOf_text (p : Spelling) (a b : Int) :
    TokenStream.kindsOf (p.text a b) = p.kinds a b := by
  obtain ⟨c, hc, hblank, hslash, hscan⟩ := exists_sign b
  have hlast := map_kind_lexFrom_last (some (signOf b)) b.natAbs
  unfold TokenStream.kindsOf TokenStream.read lex
  dsimp only
  rw [normalize_text, toList_text]
  cases p with
  | attached =>
      by_cases hb : b < 0
      · have hsign : signOf b = .minus := if_pos hb
        have hend : nameChar? [] = none := rfl
        have hkinds := map_kind_lexFrom_dimension (step a).sign a.natAbs
          (fun _ hc => continuesName_of_digits (n := b.natAbs) hc) hend
        rw [List.append_nil] at hkinds
        rw [hsign, kinds, if_pos hb]
        exact hkinds.trans (congrArg _ map_kind_lexFrom_nil)
      · have hsign : signOf b = .plus := if_neg hb
        rw [hsign] at hlast ⊢
        rw [kinds, if_neg hb, map_kind_lexFrom_step a rfl, hlast]
  | spaced =>
      rw [hc] at hlast ⊢
      rw [kinds, map_kind_lexFrom_step a rfl, List.singleton_append,
        map_kind_lexFrom_space hblank]
      exact congrArg _ (congrArg _ hlast)
  | separated =>
      obtain ⟨d, ds, hds, hd⟩ := exists_toDigits b.natAbs
      have hdigits := map_kind_lexFrom_last none b.natAbs
      rw [hds] at hdigits
      rw [hc, hds, kinds, map_kind_lexFrom_step a rfl]
      dsimp only
      rw [List.singleton_append, map_kind_lexFrom_space hblank, map_kind_lexFrom_cons hslash, hscan,
        map_kind_lexFrom_space (isBlank_of_isDigit hd)]
      exact congrArg _ (congrArg _ (congrArg _ (congrArg _ hdigits)))

/-! ### The formula -/

/-- The offset that is read: the least one within the limits is kept where its sign belongs to the
number, and raised by one where the digits are read alone. -/
def kept (p : Spelling) (b : Int) : Int :=
  if b = -2147483648 ∧ p ≠ spaced then -2147483647 else b

/-- A number within the limits counts for itself. -/
theorem saturated_of_mem {n : Int} (hn : -2147483648 ≤ n ∧ n ≤ 2147483647) :
    saturated n = n := by
  unfold saturated
  omega

/-- The numeral of the step writes the step. -/
theorem writes_step (a : Int) : (step a).Writes a := by
  refine ⟨rfl, rfl, ?_⟩
  unfold step
  by_cases ha : a < 0
  · simp only [ha, if_true]
    omega
  · simp only [ha, if_false, reduceCtorEq]
    omega

/-- A digit is no letter. -/
theorem toLower_of_isDigit {d : Char} (hd : d.isDigit = true) : d.toLower = d := by
  unfold Char.toLower
  refine dif_neg fun hupper => ?_
  simp only [Char.isDigit, Bool.and_eq_true, decide_eq_true_eq] at hd
  exact absurd (UInt32.le_trans hupper.1 hd.2) (by decide)

/-- The unit with digits in it is its own lower-case form. -/
theorem toList_lower_unit (n : Nat) :
    (Text.lower (String.ofList ('n' :: '-' :: Nat.toDigits 10 n))).toList =
      'n' :: '-' :: Nat.toDigits 10 n := by
  have hdigits : (Nat.toDigits 10 n).map Char.toLower = Nat.toDigits 10 n :=
    (List.map_congr_left fun d hd => toLower_of_isDigit (isDigit_of_mem_toDigits hd)).trans
      (List.map_id _)
  rw [Text.lower, String.toList_map, String.toList_ofList, List.map_cons, List.map_cons, hdigits]
  rfl

/-- A step within the limits leads with its own value. -/
theorem leads_step (ha : -2147483648 ≤ a ∧ a ≤ 2147483647) {unit : String} {tail : List Char}
    (hunit : (Text.lower unit).toList = 'n' :: tail) : Leads [.dimension (step a) unit] a tail := by
  have hlead := Leads.dimension (writes_step a) hunit
  rwa [saturated_of_mem ha] at hlead

/-- A number with the sign of the offset is read as the offset. -/
theorem signed_offset (hb : -2147483648 ≤ b ∧ b ≤ 2147483647) :
    Signed [.number ⟨some (signOf b), b.natAbs, 0, none⟩] b := by
  have hwrites : Numeral.Writes ⟨some (signOf b), b.natAbs, 0, none⟩ b := by
    refine ⟨rfl, rfl, ?_⟩
    unfold signOf
    by_cases hneg : b < 0
    · simp only [hneg, if_true]
      omega
    · simp only [hneg, if_false, Option.some.injEq, reduceCtorEq]
      omega
  have hsigned := Signed.number (by simp) hwrites
  rwa [saturated_of_mem hb] at hsigned

/-- The digits alone are read as the distance of the offset from zero, held within the limits. -/
theorem signless_offset (b : Int) :
    Signless [.number ⟨none, b.natAbs, 0, none⟩] (saturated b.natAbs) :=
  .number rfl ⟨rfl, rfl, rfl⟩

/-- A negative offset is kept as far as its digits are, but in the spelling with one space. -/
theorem kept_of_neg {p : Spelling} (hp : p ≠ spaced) (hb : -2147483648 ≤ b) (hneg : b < 0) :
    p.kept b = -saturated b.natAbs := by
  unfold kept saturated
  simp only [hp, ne_eq, not_false_eq_true, and_true]
  split <;> omega

/-- An offset that is not negative is kept as it is. -/
theorem kept_of_nonneg {p : Spelling} (hneg : ¬b < 0) : p.kept b = b := by
  unfold kept
  exact if_neg fun h => by omega

/-- **The formula of each spelling.**  Without spaces the minus and the digits are part of the
unit. -/
theorem formula_kinds (p : Spelling) (ha : -2147483648 ≤ a ∧ a ≤ 2147483647)
    (hb : -2147483648 ≤ b ∧ b ≤ 2147483647) : Formula (p.kinds a b) ⟨a, p.kept b⟩ := by
  have hletter : Leads [.dimension (step a) "n"] a [] := leads_step ha (by decide +kernel)
  have hsigned := signed_offset hb
  have hsignless := signless_offset b
  have hspace : Blank [.whitespace] := fun k hk => List.mem_singleton.mp hk
  cases p with
  | attached =>
      by_cases hneg : b < 0
      · obtain ⟨d, ds, hds, -⟩ := exists_toDigits b.natAbs
        have hne : Nat.toDigits 10 b.natAbs ≠ [] := by simp [hds]
        have hdigits := Follows.digits hne fun c hc => isDigit_of_mem_toDigits hc
        rw [Nat.ofDigitChars_toDigits (by decide) (by decide),
          ← kept_of_neg (p := attached) (by decide) hb.1 hneg] at hdigits
        rw [kinds, if_pos hneg]
        exact .stepped (leads_step ha (toList_lower_unit b.natAbs)) hdigits
      · have hsign : signOf b = .plus := if_neg hneg
        rw [hsign] at hsigned
        rw [kinds, if_neg hneg, kept_of_nonneg hneg]
        exact .stepped hletter (.offset (.signed blank_nil hsigned))
  | spaced =>
      have hkept : kept spaced b = b := if_neg fun h => h.2 rfl
      rw [hkept]
      exact .stepped hletter (.offset (.signed hspace hsigned))
  | separated =>
      by_cases hneg : b < 0
      · rw [kinds, if_pos hneg, kept_of_neg (by decide) hb.1 hneg]
        exact .stepped hletter (.offset (.minus hspace hspace hsignless))
      · have habs : saturated b.natAbs = b := by
          rw [Int.natAbs_of_nonneg (by omega), saturated_of_mem hb]
        rw [habs] at hsignless
        rw [kinds, if_neg hneg, kept_of_nonneg hneg]
        exact .stepped hletter (.offset (.plus hspace hspace hsignless))

/-- None of the tokens is a bracket, or one that no selector holds. -/
theorem nest_of_mem_kinds {p : Spelling} {k : TokenKind} (hk : k ∈ p.kinds a b)
    (stack : List Bracket) : k.nest stack = some stack := by
  unfold kinds at hk
  split at hk
  · split at hk
    · rw [List.mem_singleton.mp hk]
      rfl
    · simp only [List.mem_cons, List.not_mem_nil, or_false] at hk
      rcases hk with rfl | rfl <;> rfl
  · simp only [List.mem_cons, List.not_mem_nil, or_false] at hk
    rcases hk with rfl | rfl | rfl <;> rfl
  · simp only [List.mem_cons, List.not_mem_nil, or_false] at hk
    rcases hk with rfl | rfl | rfl | rfl | rfl
    case inr.inr.inl => split <;> rfl
    all_goals rfl

/-- **Each spelling is read**, and gives back the step and the offset, the least offset apart. -/
theorem ofTokens?_text (p : Spelling) (ha : -2147483648 ≤ a ∧ a ≤ 2147483647)
    (hb : -2147483648 ≤ b ∧ b ≤ 2147483647) :
    ∃ stream, TokenStream.ofText (p.text a b) = .ok stream ∧
      AnB.ofTokens? stream.tokens = some ⟨a, p.kept b⟩ := by
  have hkinds : (TokenStream.read (p.text a b)).tokens.map kind = p.kinds a b := kindsOf_text p a b
  have hopen : openAfter [] (TokenStream.read (p.text a b)).tokens = some [] :=
    openAfter_of_nest fun k hk => nest_of_mem_kinds (hkinds ▸ hk) []
  have hbalanced : balanced [] (TokenStream.read (p.text a b)).tokens = true := by
    rw [balanced_eq, hopen]
    rfl
  have hwhole : (TokenStream.read (p.text a b)).tokens.map kind = [] ++ p.kinds a b ++ [] := by
    rw [List.nil_append, List.append_nil]
    exact hkinds
  exact ⟨_, TokenStream.ofText_eq_ok_iff.mpr ⟨hbalanced, rfl⟩,
    ofTokens?_of_formula hwhole blank_nil blank_nil (formula_kinds p ha hb)⟩

/-- The least offset, with its sign right behind the step. -/
theorem ofTokens?_text_least :
    ∃ stream, TokenStream.ofText (attached.text 5 (-2147483648)) = .ok stream ∧
      AnB.ofTokens? stream.tokens = some ⟨5, -2147483647⟩ :=
  ofTokens?_text attached (a := 5) (b := -2147483648) (by decide) (by decide)

end Spelling

end AnB

end Selectors

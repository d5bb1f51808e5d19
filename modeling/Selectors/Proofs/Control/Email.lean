import Mathlib.Computability.RegularExpressions
import Selectors.Control.Email
import Selectors.Proofs.Text.Cutting

/-!
# The grammar of mail addresses

Documents give the grammar of an address as a regular expression.  The check cuts the text at its
first at sign, and what follows at the points, and looks at the pieces.  Both accept the same texts:
no at sign can stand in a local part and no point in a label, so that the text can be cut in one way
only, and the length of a label bounds the repetition inside of it.

* `Email.grammar` is the expression, with `Email.label` for one label.
* `Email.mem_oneOf`, `Email.mem_star_oneOf` and `Email.mem_pow_optional` say what classes of
  characters and their repetitions match, and `Email.mem_row` what rows with separators match.
* `Email.mem_label_iff` and `Email.mem_domain_iff` are about labels and domains, and
  `Email.isValid_iff_mem_grammar` is the result.
-/

namespace Selectors

namespace Email

open RegularExpression

variable {cs s a b w : List Char} {c d sep : Char}

/-! ### Expressions -/

/-- The expression for one of some characters. -/
def oneOf (cs : List Char) : RegularExpression Char :=
  (cs.map char).sum

theorem mem_char : s ∈ (char c).matches' ↔ s = [c] :=
  Set.mem_singleton_iff

theorem mem_oneOf : s ∈ (oneOf cs).matches' ↔ ∃ c ∈ cs, s = [c] := by
  induction cs with
  | nil => simp [oneOf, Language.notMem_zero]
  | cons c cs ih =>
      have hcons : oneOf (c :: cs) = char c + oneOf cs := rfl
      rw [hcons, matches'_add, Language.mem_add, mem_char, ih]
      simp

/-- A class repeated at will matches the texts over it. -/
theorem mem_star_oneOf : s ∈ (oneOf cs).star.matches' ↔ ∀ c ∈ s, c ∈ cs := by
  rw [matches'_star, Language.mem_kstar]
  constructor
  · rintro ⟨parts, rfl, hparts⟩ c hc
    obtain ⟨part, hpart, hc⟩ := List.mem_flatten.mp hc
    obtain ⟨d, hd, rfl⟩ := mem_oneOf.mp (hparts part hpart)
    exact List.mem_singleton.mp hc ▸ hd
  · intro hs
    refine ⟨s.map ([·]), (List.flatMap_singleton' s).symm, fun part hpart => ?_⟩
    obtain ⟨c, hc, rfl⟩ := List.mem_map.mp hpart
    exact mem_oneOf.mpr ⟨c, hs c hc, rfl⟩

/-- A class that may be left out, a number of times, matches the texts over it up to that length. -/
theorem mem_pow_optional {n : Nat} :
    s ∈ ((1 + oneOf cs) ^ n).matches' ↔ s.length ≤ n ∧ ∀ c ∈ s, c ∈ cs := by
  rw [matches'_pow, matches'_add, matches'_epsilon]
  induction n generalizing s with
  | zero =>
      rw [pow_zero, Language.mem_one, Nat.le_zero, List.length_eq_zero_iff]
      exact ⟨fun hs => ⟨hs, by simp [hs]⟩, And.left⟩
  | succ n ih =>
      rw [pow_succ', Language.mem_mul]
      constructor
      · rintro ⟨first, hfirst, rest, hrest, rfl⟩
        obtain ⟨hlength, hrest⟩ := ih.mp hrest
        rcases (Language.mem_add _ _ _).mp hfirst with hnone | hone
        · obtain rfl := (Language.mem_one _).mp hnone
          exact ⟨Nat.le_succ_of_le hlength, hrest⟩
        · obtain ⟨c, hc, rfl⟩ := mem_oneOf.mp hone
          exact ⟨Nat.succ_le_succ hlength, List.forall_mem_cons.mpr ⟨hc, hrest⟩⟩
      · rintro ⟨hlength, hs⟩
        cases s with
        | nil => exact ⟨[], Or.inl rfl, [], ih.mpr ⟨Nat.zero_le n, hs⟩, rfl⟩
        | cons c rest =>
            obtain ⟨hc, hrest⟩ := List.forall_mem_cons.mp hs
            exact ⟨[c], Or.inr (mem_oneOf.mpr ⟨c, hc, rfl⟩), rest,
              ih.mpr ⟨Nat.le_of_succ_le_succ hlength, hrest⟩, rfl⟩

/-- One or more parts with a separator before each but the first. -/
theorem mem_row {P : RegularExpression Char} :
    s ∈ (P * (char sep * P).star).matches' ↔
      ∃ a ws, (∀ w ∈ a :: ws, w ∈ P.matches') ∧ s = a ++ ws.flatMap (sep :: ·) := by
  have hpart : ∀ {part}, part ∈ (char sep * P).matches' ↔
      ∃ w ∈ P.matches', part = sep :: w := by
    intro part
    rw [matches'_mul, Language.mem_mul]
    constructor
    · rintro ⟨x, hx, w, hw, rfl⟩
      obtain rfl := mem_char.mp hx
      exact ⟨w, hw, rfl⟩
    · rintro ⟨w, hw, rfl⟩
      exact ⟨[sep], mem_char.mpr rfl, w, hw, rfl⟩
  have hparts : ∀ parts : List (List Char), (∀ y ∈ parts, y ∈ (char sep * P).matches') →
      ∃ ws : List (List Char), (∀ w ∈ ws, w ∈ P.matches') ∧
        parts.flatten = ws.flatMap (sep :: ·) := by
    intro parts hall
    induction parts with
    | nil => exact ⟨[], by simp, rfl⟩
    | cons y parts ih =>
        obtain ⟨hy, hmore⟩ := List.forall_mem_cons.mp hall
        obtain ⟨w, hw, rfl⟩ := hpart.mp hy
        obtain ⟨ws, hws, heq⟩ := ih hmore
        exact ⟨w :: ws, List.forall_mem_cons.mpr ⟨hw, hws⟩, by simp [heq]⟩
  rw [matches'_mul, matches'_star, Language.mem_mul]
  constructor
  · rintro ⟨a, ha, rest, hrest, rfl⟩
    obtain ⟨parts, rfl, hall⟩ := Language.mem_kstar.mp hrest
    obtain ⟨ws, hws, heq⟩ := hparts parts hall
    exact ⟨a, ws, List.forall_mem_cons.mpr ⟨ha, hws⟩, by rw [heq]⟩
  · rintro ⟨a, ws, hall, rfl⟩
    obtain ⟨ha, hws⟩ := List.forall_mem_cons.mp hall
    refine ⟨a, ha, ws.flatMap (sep :: ·), ?_, rfl⟩
    refine Language.mem_kstar.mpr ⟨ws.map (sep :: ·), rfl, fun part hmem => ?_⟩
    obtain ⟨w, hw, rfl⟩ := List.mem_map.mp hmem
    exact hpart.mpr ⟨w, hws w hw, rfl⟩

/-! ### The grammar -/

def lettersAndDigits : List Char :=
  "abcdefghijklmnopqrstuvwxyzABCDEFGHIJKLMNOPQRSTUVWXYZ0123456789".toList

/-- What else may stand before the at sign. -/
def signs : List Char :=
  ".!#$%&'*+/=?^_`\x7b|\x7d~-".toList

/-- A letter or digit, which up to 61 letters, digits and hyphens and one more letter or digit may
follow. -/
def label : RegularExpression Char :=
  oneOf lettersAndDigits *
    (1 + (1 + oneOf (lettersAndDigits ++ ['-'])) ^ 61 * oneOf lettersAndDigits)

/-- Labels with a point between them. -/
def domain : RegularExpression Char :=
  label * (char '.' * label).star

/-- **The expression for addresses** that documents give. -/
def grammar : RegularExpression Char :=
  oneOf (lettersAndDigits ++ signs) * (oneOf (lettersAndDigits ++ signs)).star * char '@' * domain

/-- The letters and digits of the check are those of the grammar. -/
theorem isLetterOrDigit_iff : isLetterOrDigit c = true ↔ c ∈ lettersAndDigits := by
  have hlist : lettersAndDigits.all isLetterOrDigit = true := by
    decide +kernel
  have hall : ∀ n < 128, isLetterOrDigit (Char.ofNat n) = true →
      Char.ofNat n ∈ lettersAndDigits := by
    decide +kernel
  refine ⟨fun hc => ?_, List.all_eq_true.mp hlist c⟩
  have hlow : c.toNat < 128 := by
    have hranges : ((decide ('A'.val ≤ c.val ∧ c.val ≤ 'Z'.val)
        || decide ('a'.val ≤ c.val) && decide (c.val ≤ 'z'.val))
        || decide ('0'.val ≤ c.val) && decide (c.val ≤ '9'.val)) = true := hc
    simp only [Bool.or_eq_true, Bool.and_eq_true, decide_eq_true_eq,
      UInt32.le_iff_toNat_le] at hranges
    have hcapital : 'Z'.val.toNat = 90 := rfl
    have hsmall : 'z'.val.toNat = 122 := rfl
    have hdigit : '9'.val.toNat = 57 := rfl
    change c.val.toNat < 128
    omega
  rw [← Char.ofNat_toNat c] at hc ⊢
  exact hall c.toNat hlow hc

/-- The signs of the check are those of the grammar. -/
theorem mem_localSigns_iff : c ∈ localSigns ↔ c ∈ signs := by
  have hsame : localSigns = signs := by
    decide +kernel
  rw [hsame]

/-! ### Labels -/

theorem isLabel_singleton : isLabel [c] = true ↔ isLetterOrDigit c = true := by
  have hhyphen : isLetterOrDigit '-' = false := by
    decide
  simp only [isLabel, List.length_singleton, List.all_cons, List.all_nil, List.head?_cons,
    List.getLast?_singleton]
  grind

/-- A label of more characters has a letter or a digit at both ends, and at most 61 characters
between them. -/
theorem isLabel_append : isLabel (c :: (w ++ [d])) = true ↔ isLetterOrDigit c = true ∧
    (w.length ≤ 61 ∧ ∀ e ∈ w, e ∈ lettersAndDigits ++ ['-']) ∧ isLetterOrDigit d = true := by
  have hhyphen : isLetterOrDigit '-' = false := by
    decide
  have hlast : (c :: (w ++ [d])).getLast? = some d := by
    rw [← List.cons_append, List.getLast?_concat]
  simp only [isLabel, hlast, List.head?_cons, List.length_cons, List.length_append,
    List.all_cons, List.all_append, List.all_nil, List.mem_append, List.mem_singleton,
    ← isLetterOrDigit_iff, Bool.and_eq_true, decide_eq_true_eq, bne_iff_ne, ne_eq,
    Option.some.injEq, List.all_eq_true, Bool.or_eq_true, beq_iff_eq, List.length_nil]
  grind

/-- **Labels**: the check accepts those of the grammar. -/
theorem mem_label_iff : s ∈ label.matches' ↔ isLabel s = true := by
  rw [label, matches'_mul, Language.mem_mul, matches'_add, matches'_epsilon, matches'_mul]
  constructor
  · rintro ⟨first, hfirst, rest, hrest, rfl⟩
    obtain ⟨c, hc, rfl⟩ := mem_oneOf.mp hfirst
    rw [← isLetterOrDigit_iff] at hc
    rcases (Language.mem_add _ _ _).mp hrest with hnone | hmore
    · obtain rfl := (Language.mem_one _).mp hnone
      exact isLabel_singleton.mpr hc
    · obtain ⟨w, hw, last, hlast, rfl⟩ := Language.mem_mul.mp hmore
      obtain ⟨d, hd, rfl⟩ := mem_oneOf.mp hlast
      exact isLabel_append.mpr ⟨hc, mem_pow_optional.mp hw, isLetterOrDigit_iff.mpr hd⟩
  · intro hs
    cases s with
    | nil => cases hs
    | cons c rest =>
        rcases List.eq_nil_or_concat rest with rfl | ⟨w, d, rfl⟩
        · have hc := isLetterOrDigit_iff.mp (isLabel_singleton.mp hs)
          exact ⟨[c], mem_oneOf.mpr ⟨c, hc, rfl⟩, [], Or.inl rfl, rfl⟩
        · rw [List.concat_eq_append] at hs ⊢
          obtain ⟨hc, hw, hd⟩ := isLabel_append.mp hs
          rw [isLetterOrDigit_iff] at hc hd
          refine ⟨[c], mem_oneOf.mpr ⟨c, hc, rfl⟩, w ++ [d], Or.inr ?_, rfl⟩
          exact Language.mem_mul.mpr
            ⟨w, mem_pow_optional.mpr hw, [d], mem_oneOf.mpr ⟨d, hd, rfl⟩, rfl⟩

/-- No point stands in a label. -/
theorem point_not_mem_of_isLabel (hs : isLabel s = true) : '.' ∉ s := by
  intro hmem
  simp only [isLabel, Bool.and_eq_true, List.all_eq_true] at hs
  exact absurd (hs.1.1.2 '.' hmem) (by decide)

/-- **A domain is what has labels for its pieces.** -/
theorem mem_domain_iff :
    s ∈ domain.matches' ↔ (Text.pieces (· == '.') s).all isLabel = true := by
  rw [domain, mem_row, List.all_eq_true]
  simp only [mem_label_iff]
  constructor
  · rintro ⟨a, ws, hall, heq⟩
    have hpieces := Text.pieces_eq_cons_iff.mpr
      ⟨fun w hw => point_not_mem_of_isLabel (hall w hw), heq⟩
    rw [hpieces]
    exact hall
  · intro hall
    obtain ⟨a, ws, hpieces⟩ := List.exists_cons_of_ne_nil (Text.pieces_ne_nil (· == '.') s)
    rw [hpieces] at hall
    exact ⟨a, ws, hall, (Text.pieces_eq_cons_iff.mp hpieces).2⟩

/-! ### Addresses -/

/-- A local part is a row of characters of the grammar, and not empty. -/
theorem isLocalPart_iff :
    isLocalPart s = true ↔ s ≠ [] ∧ ∀ c ∈ s, c ∈ lettersAndDigits ++ signs := by
  simp only [isLocalPart, Bool.and_eq_true, Bool.not_eq_true', List.isEmpty_eq_false_iff,
    List.all_eq_true, Bool.or_eq_true, List.contains_iff_mem, List.mem_append,
    isLetterOrDigit_iff, mem_localSigns_iff]

/-- What the two parts of the expression before the at sign match. -/
theorem mem_localPart_iff : s ∈ (oneOf (lettersAndDigits ++ signs) *
    (oneOf (lettersAndDigits ++ signs)).star).matches' ↔ isLocalPart s = true := by
  rw [matches'_mul, Language.mem_mul, isLocalPart_iff]
  constructor
  · rintro ⟨first, hfirst, rest, hrest, rfl⟩
    obtain ⟨c, hc, rfl⟩ := mem_oneOf.mp hfirst
    exact ⟨List.cons_ne_nil c rest, List.forall_mem_cons.mpr ⟨hc, mem_star_oneOf.mp hrest⟩⟩
  · rintro ⟨hne, hall⟩
    obtain ⟨c, rest, rfl⟩ := List.exists_cons_of_ne_nil hne
    obtain ⟨hc, hrest⟩ := List.forall_mem_cons.mp hall
    exact ⟨[c], mem_oneOf.mpr ⟨c, hc, rfl⟩, rest, mem_star_oneOf.mpr hrest, rfl⟩

/-- A valid address is a local part, an at sign and a domain; the at sign is the first one, for none
can stand in a local part. -/
theorem isValid_iff_exists {v : String} : isValid v = true ↔
    ∃ name rest, v.toList = name ++ '@' :: rest ∧ isLocalPart name = true ∧
      (Text.pieces (· == '.') rest).all isLabel = true := by
  unfold isValid
  constructor
  · intro hv
    split at hv
    · cases hv
    · next name rest hcut =>
        obtain ⟨hname, hrest⟩ := Bool.and_eq_true_iff.mp hv
        obtain ⟨at', hat, heq⟩ := Text.exists_of_cutAt?_eq_some hcut
        obtain rfl := beq_iff_eq.mp hat
        exact ⟨name, rest, heq, hname, hrest⟩
  · rintro ⟨name, rest, heq, hname, hrest⟩
    have hsign : '@' ∉ lettersAndDigits ++ signs := by
      decide +kernel
    have hnone : ∀ c ∈ name, (c == '@') = false := by
      intro c hc
      refine beq_eq_false_iff_ne.mpr fun hat => hsign ?_
      exact hat ▸ (isLocalPart_iff.mp hname).2 c hc
    rw [heq, Text.cutAt?_append hnone rfl]
    exact Bool.and_eq_true_iff.mpr ⟨hname, hrest⟩

/-- **The check accepts exactly what the expression matches.** -/
theorem isValid_iff_mem_grammar (v : String) : isValid v = true ↔ v.toList ∈ grammar.matches' := by
  rw [isValid_iff_exists, grammar, matches'_mul, Language.mem_mul]
  constructor
  · rintro ⟨name, rest, heq, hname, hrest⟩
    refine ⟨name ++ ['@'], ?_, rest, mem_domain_iff.mpr hrest, by simp [heq]⟩
    rw [matches'_mul]
    exact Language.mem_mul.mpr ⟨name, mem_localPart_iff.mpr hname, ['@'], mem_char.mpr rfl, rfl⟩
  · rintro ⟨before, hbefore, rest, hrest, heq⟩
    rw [matches'_mul] at hbefore
    obtain ⟨name, hname, sign, hsign, rfl⟩ := Language.mem_mul.mp hbefore
    obtain rfl := mem_char.mp hsign
    exact ⟨name, rest, by simp [← heq], mem_localPart_iff.mp hname, mem_domain_iff.mp hrest⟩

end Email

end Selectors

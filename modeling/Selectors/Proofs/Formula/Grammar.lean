import Mathlib.Data.List.TakeWhile
import Selectors.AnB

/-!
# The grammar of formulas

A formula may be spread over tokens in many ways: `2n-1` is one dimension, `2n -1` a dimension and a
number, `2n - 1` has a token for the sign.  The grammar lists the ways, and gives each its step and
its offset.  What is read is told apart by the letter `n`: a part before it, and what stands behind
the letter, in the same token and in those that follow.  Every whole number that is written counts
as the nearest one of 32 bits with a sign.

* `AnB.Formula` is the grammar, put together from `AnB.Leads` and `AnB.Follows`, with the limits of
  `AnB.saturated`.
* `AnB.Fills` says of a reader that it reads a value and leaves nothing but whitespace.
* `AnB.ofTokens?_eq_some_iff` says that the formulas read are those that the grammar derives.
-/

namespace Selectors

/-- The whole number that counts for one that is written: the nearest one of 32 bits with a sign. -/
def AnB.saturated (n : Int) : Int :=
  max (-2147483648) (min n 2147483647)

/-- The limits that the reader keeps are those of the grammar. -/
theorem clampInteger_eq_saturated (n : Int) : clampInteger n = AnB.saturated n :=
  rfl

/-- The whole number that is written, before it is held within the limits. -/
def Numeral.Writes (v : Numeral) (n : Int) : Prop :=
  v.places = 0 ∧ v.exponent = none ∧
    n = if v.sign = some .minus then -(v.digits : Int) else v.digits

/-- A number is read if it is written as a whole one, and saturated. -/
theorem Numeral.integer?_eq_some_iff {v : Numeral} {b : Int} :
    v.integer? = some b ↔ ∃ n, v.Writes n ∧ b = AnB.saturated n := by
  unfold integer? isInteger negative Writes
  simp only [Bool.and_eq_true, beq_iff_eq, Option.isNone_iff_eq_none, clampInteger_eq_saturated]
  constructor
  · intro h
    split at h
    · rename_i hwhole
      exact ⟨_, ⟨hwhole.1, hwhole.2, rfl⟩, (Option.some.inj h).symm⟩
    · cases h
  · intro h
    obtain ⟨_, ⟨hplaces, hexponent, rfl⟩, rfl⟩ := h
    rw [if_pos ⟨hplaces, hexponent⟩]

namespace AnB

/-! ### The grammar -/

/-- A run of whitespace, which may be empty. -/
def Blank (ks : List TokenKind) : Prop :=
  ∀ k ∈ ks, k = .whitespace

/-- A whole number with a sign. -/
inductive Signed : List TokenKind → Int → Prop
  | number {v : Numeral} {n : Int} (hsign : v.sign ≠ none) (hv : v.Writes n) :
      Signed [.number v] (saturated n)

/-- A whole number without a sign. -/
inductive Signless : List TokenKind → Int → Prop
  | number {v : Numeral} {n : Int} (hsign : v.sign = none) (hv : v.Writes n) :
      Signless [.number v] (saturated n)

/-- The offset in tokens of its own: nothing, a number with its sign, or a sign and a number. -/
inductive Offset : List TokenKind → Int → Prop
  | none : Offset [] 0
  | signed {ws ks : List TokenKind} {b : Int} (hws : Blank ws) (h : Signed ks b) :
      Offset (ws ++ ks) b
  | plus {ws ws' ks : List TokenKind} {b : Int} (hws : Blank ws) (hws' : Blank ws')
      (h : Signless ks b) : Offset (ws ++ .delim '+' :: (ws' ++ ks)) b
  | minus {ws ws' ks : List TokenKind} {b : Int} (hws : Blank ws) (hws' : Blank ws')
      (h : Signless ks b) : Offset (ws ++ .delim '-' :: (ws' ++ ks)) (-b)

/-- What follows the letter, as characters of the same token and as tokens: the offset, or a hyphen
and a number, or a hyphen and digits. -/
inductive Follows : List Char → List TokenKind → Int → Prop
  | offset {ks : List TokenKind} {b : Int} (h : Offset ks b) : Follows [] ks b
  | hyphen {ws ks : List TokenKind} {b : Int} (hws : Blank ws) (h : Signless ks b) :
      Follows ['-'] (ws ++ ks) (-b)
  | digits {ds : List Char} (hne : ds ≠ []) (hds : ∀ c ∈ ds, c.isDigit = true) :
      Follows ('-' :: ds) [] (-saturated (Nat.ofDigitChars 10 ds 0))

/-- The step with the letter `n`, and the characters that stand behind the letter in its token. No
whitespace follows a leading plus. -/
inductive Leads : List TokenKind → Int → List Char → Prop
  | dimension {v : Numeral} {n : Int} {unit : String} {tail : List Char} (hv : v.Writes n)
      (hunit : (Text.lower unit).toList = 'n' :: tail) :
      Leads [.dimension v unit] (saturated n) tail
  | letter {name : String} {tail : List Char} (hname : (Text.lower name).toList = 'n' :: tail) :
      Leads [.ident name] 1 tail
  | plus {name : String} {tail : List Char} (hname : (Text.lower name).toList = 'n' :: tail) :
      Leads [.delim '+', .ident name] 1 tail
  | minus {name : String} {tail : List Char}
      (hname : (Text.lower name).toList = '-' :: 'n' :: tail) : Leads [.ident name] (-1) tail

/-- **The formulas**: a keyword, a whole number, or a step with an offset. -/
inductive Formula : List TokenKind → AnB → Prop
  | odd {name : String} (hname : Text.lower name = "odd") : Formula [.ident name] ⟨2, 1⟩
  | even {name : String} (hname : Text.lower name = "even") : Formula [.ident name] ⟨2, 0⟩
  | integer {v : Numeral} {n : Int} (hv : v.Writes n) : Formula [.number v] ⟨0, saturated n⟩
  | stepped {ks os : List TokenKind} {a b : Int} {tail : List Char} (hlead : Leads ks a tail)
      (h : Follows tail os b) : Formula (ks ++ os) ⟨a, b⟩

/-! ### Whitespace -/

variable {α β : Type} {ks ws : List TokenKind} {a b : Int}

theorem blank_nil : Blank [] := fun _ h => absurd h List.not_mem_nil

/-- In a blank run nothing is behind the whitespace. -/
theorem skipSpace_eq_nil (h : Blank ks) : skipSpace ks = [] :=
  List.dropWhile_eq_nil_iff.mpr fun k hk => beq_iff_eq.mpr (h k hk)

/-- A blank run in front is skipped with the whitespace. -/
theorem skipSpace_append (h : Blank ws) (ks : List TokenKind) :
    skipSpace (ws ++ ks) = skipSpace ks :=
  List.dropWhile_append_of_pos fun k hk => beq_iff_eq.mpr (h k hk)

/-- Nothing is skipped in front of any other token. -/
theorem skipSpace_cons {k : TokenKind} (hk : k ≠ .whitespace) (ks : List TokenKind) :
    skipSpace (k :: ks) = k :: ks :=
  List.dropWhile_cons_of_neg fun h => hk (beq_iff_eq.mp h)

/-- What is skipped is whitespace. -/
theorem exists_skipSpace (ks : List TokenKind) : ∃ ws, Blank ws ∧ ks = ws ++ skipSpace ks := by
  refine ⟨ks.takeWhile (· == .whitespace), fun k hk => ?_, List.takeWhile_append_dropWhile.symm⟩
  have hspace : (k == .whitespace) = true := List.mem_takeWhile_imp (p := (· == _)) hk
  exact beq_iff_eq.mp hspace

/-- A run is blank exactly if nothing is left behind its whitespace. -/
theorem blank_iff : Blank ks ↔ skipSpace ks = [] := by
  refine ⟨skipSpace_eq_nil, fun h => ?_⟩
  obtain ⟨ws, hws, hks⟩ := exists_skipSpace ks
  rw [hks, h, List.append_nil]
  exact hws

/-! ### Readers that fill a run -/

/-- The reader reads the value, and whitespace is left. -/
def Fills (x : Option (α × List TokenKind)) (a : α) : Prop :=
  ∃ rest, x = some (a, rest) ∧ Blank rest

theorem fills_map {x : Option (α × List TokenKind)} {f : α → β} {b : β} :
    Fills (x.map fun (a, r) => (f a, r)) b ↔ ∃ a, Fills x a ∧ b = f a := by
  constructor
  · intro h
    obtain ⟨rest, hx, hrest⟩ := h
    obtain ⟨⟨a, r⟩, hx, heq⟩ := Option.map_eq_some_iff.mp hx
    cases heq
    exact ⟨a, ⟨rest, hx, hrest⟩, rfl⟩
  · intro h
    obtain ⟨a, ⟨rest, rfl, hrest⟩, rfl⟩ := h
    exact ⟨rest, rfl, hrest⟩

theorem not_fills_none {a : α} : ¬Fills none a := by
  intro h
  obtain ⟨_, h, -⟩ := h
  cases h

/-- A number without a sign is read from one token. -/
theorem signless?_eq_some_iff {rest : List TokenKind} :
    signless? ks = some (b, rest) ↔ ∃ front, ks = front ++ rest ∧ Signless front b := by
  constructor
  · intro h
    unfold signless? at h
    split at h
    · rename_i v r
      split at h
      · cases h
      · rename_i hsign
        obtain ⟨b', hb', heq⟩ := Option.map_eq_some_iff.mp h
        cases heq
        obtain ⟨n, hv, rfl⟩ := Numeral.integer?_eq_some_iff.mp hb'
        refine ⟨[.number v], rfl, .number ?_ hv⟩
        simpa [Numeral.signed] using hsign
    · cases h
  · intro h
    obtain ⟨front, rfl, hfront⟩ := h
    obtain ⟨hsign, hv⟩ := hfront
    have hinteger := Numeral.integer?_eq_some_iff.mpr ⟨_, hv, rfl⟩
    simp [signless?, Numeral.signed, hsign, hinteger]

/-- **Offsets behind a sign**: a number without a sign, with whitespace around it. -/
theorem fills_signless : Fills (signless? (skipSpace ks)) b ↔
    ∃ ws front back, ks = ws ++ front ++ back ∧ Blank ws ∧ Blank back ∧ Signless front b := by
  constructor
  · intro h
    obtain ⟨rest, hread, hrest⟩ := h
    obtain ⟨front, hfront, hb⟩ := signless?_eq_some_iff.mp hread
    obtain ⟨ws, hws, hks⟩ := exists_skipSpace ks
    exact ⟨ws, front, rest, by rw [hks, hfront, List.append_assoc], hws, hrest, hb⟩
  · intro h
    obtain ⟨ws, front, back, rfl, hws, hback, hb⟩ := h
    have hstart : skipSpace (front ++ back) = front ++ back := by
      cases hb
      exact skipSpace_cons (by simp) _
    refine ⟨back, ?_, hback⟩
    rw [List.append_assoc, skipSpace_append hws, hstart, signless?_eq_some_iff]
    exact ⟨front, rfl, hb⟩

/-- Whatever stands behind the letter `n`, an offset is read from it if it is one. -/
theorem fills_offset : Fills (offset? ks) b ↔
    ∃ front back, ks = front ++ back ∧ Blank back ∧ Offset front b := by
  constructor
  · intro h
    obtain ⟨rest, hread, hrest⟩ := h
    obtain ⟨ws, hws, hks⟩ := exists_skipSpace ks
    unfold offset? at hread
    split at hread
    · rename_i hnil
      cases hread
      exact ⟨[], ks, rfl, blank_iff.mpr hnil, .none⟩
    · rename_i v r hnumber
      split at hread
      · rename_i hsign
        obtain ⟨b', hb', heq⟩ := Option.map_eq_some_iff.mp hread
        cases heq
        obtain ⟨n, hv, rfl⟩ := Numeral.integer?_eq_some_iff.mp hb'
        have hsigned : v.sign ≠ none := by
          simpa [Numeral.signed, Option.isSome_iff_ne_none] using hsign
        refine ⟨ws ++ [.number v], rest, ?_, hrest, .signed hws (.number hsigned hv)⟩
        rw [List.append_assoc, List.singleton_append, ← hnumber]
        exact hks
      · cases hread
    · rename_i r hplus
      obtain ⟨ws', front, back, hr, hws', hback, hb⟩ := fills_signless.mp ⟨rest, hread, hrest⟩
      refine ⟨ws ++ .delim '+' :: (ws' ++ front), back, ?_, hback, .plus hws hws' hb⟩
      rw [List.append_assoc, List.cons_append, ← hr, ← hplus]
      exact hks
    · rename_i r hminus
      obtain ⟨b', hfills, rfl⟩ := fills_map.mp ⟨rest, hread, hrest⟩
      obtain ⟨ws', front, back, hr, hws', hback, hb⟩ := fills_signless.mp hfills
      refine ⟨ws ++ .delim '-' :: (ws' ++ front), back, ?_, hback, .minus hws hws' hb⟩
      rw [List.append_assoc, List.cons_append, ← hr, ← hminus]
      exact hks
    · cases hread
  · intro h
    obtain ⟨front, back, rfl, hback, hfront⟩ := h
    unfold offset?
    cases hfront with
    | none =>
        rw [List.nil_append, skipSpace_eq_nil hback]
        exact ⟨[], rfl, blank_nil⟩
    | signed hws hb =>
        obtain ⟨hsign, hv⟩ := hb
        have hinteger := Numeral.integer?_eq_some_iff.mpr ⟨_, hv, rfl⟩
        rw [List.append_assoc, skipSpace_append hws, List.singleton_append,
          skipSpace_cons (by simp)]
        simp only [Numeral.signed, Option.isSome_iff_ne_none.mpr hsign, if_true, hinteger]
        exact ⟨back, rfl, hback⟩
    | @plus ws ws' ks b hws hws' hb =>
        rw [List.append_assoc, skipSpace_append hws, List.cons_append, skipSpace_cons (by simp)]
        exact fills_signless.mpr ⟨ws', ks, back, rfl, hws', hback, hb⟩
    | @minus ws ws' ks b hws hws' hb =>
        rw [List.append_assoc, skipSpace_append hws, List.cons_append, skipSpace_cons (by simp)]
        exact fills_map.mpr ⟨b, fills_signless.mpr ⟨ws', ks, back, rfl, hws', hback, hb⟩, rfl⟩

/-- Digits alone write their value. -/
theorem clampText_digits {ds : List Char} (hne : ds ≠ []) (hds : ∀ c ∈ ds, c.isDigit = true) :
    clampText ds = saturated (Nat.ofDigitChars 10 ds 0) := by
  have hsign : Decimal.takeSign ds = (false, ds) := by
    unfold Decimal.takeSign
    split
    · exact absurd (hds '-' List.mem_cons_self) (by decide)
    · exact absurd (hds '+' List.mem_cons_self) (by decide)
    · rfl
  have hinteger : Decimal.integer? ds = some (Nat.ofDigitChars 10 ds 0 : Int) := by
    unfold Decimal.integer?
    rw [hsign]
    simp [hne, List.all_eq_true.mpr hds, Text.natOfDigits, Nat.ofDigitChars_eq_foldl]
  rw [clampText, hinteger]
  exact clampInteger_eq_saturated _

/-- What is read behind a coefficient: the letter, and what follows it.  A hyphen without digits is
the case before. -/
theorem fills_afterCoefficient {unit : List Char} {f : AnB} :
    Fills (afterCoefficient? a unit ks) f ↔ ∃ tail front back b, unit = 'n' :: tail ∧
      ks = front ++ back ∧ Blank back ∧ Follows tail front b ∧ f = ⟨a, b⟩ := by
  constructor
  · intro h
    unfold afterCoefficient? at h
    split at h
    · obtain ⟨b, hb, rfl⟩ := fills_map.mp h
      obtain ⟨front, back, hks, hback, hoffset⟩ := fills_offset.mp hb
      exact ⟨[], front, back, b, rfl, hks, hback, .offset hoffset, rfl⟩
    · obtain ⟨b, hb, rfl⟩ := fills_map (f := fun b : Int => AnB.mk a (-b)).mp h
      obtain ⟨ws, front, back, hks, hws, hback, hsignless⟩ := fills_signless.mp hb
      exact ⟨['-'], ws ++ front, back, -b, rfl, hks, hback, .hyphen hws hsignless, rfl⟩
    · rename_i digits hdigits
      split at h
      · rename_i hall
        obtain ⟨rest, heq, hrest⟩ := h
        cases heq
        have hne : digits ≠ [] := fun hnil => hdigits (by rw [hnil])
        have hds := List.all_eq_true.mp hall
        refine ⟨'-' :: digits, [], ks, _, rfl, rfl, hrest, .digits hne hds, ?_⟩
        rw [clampText_digits hne hds]
      · exact absurd h not_fills_none
    · exact absurd h not_fills_none
  · intro h
    obtain ⟨tail, front, back, b, rfl, rfl, hback, hfollows, rfl⟩ := h
    cases hfollows with
    | offset hoffset =>
        exact fills_map.mpr ⟨b, fills_offset.mpr ⟨front, back, rfl, hback, hoffset⟩, rfl⟩
    | @hyphen ws ks b hws hsignless =>
        refine (fills_map (f := fun b : Int => AnB.mk a (-b))).mpr ⟨b, ?_, rfl⟩
        exact fills_signless.mpr ⟨ws, ks, back, rfl, hws, hback, hsignless⟩
    | @digits ds hne hds =>
        refine ⟨back, ?_, hback⟩
        obtain ⟨d, ds, rfl⟩ := List.exists_cons_of_ne_nil hne
        rw [← clampText_digits hne hds]
        exact if_pos (List.all_eq_true.mpr hds)

/-- A formula that starts with a name is a keyword, or has the step one or minus one. -/
theorem formula_of_ofName {name : String} {f : AnB}
    (h : Fills (ofName? (Text.lower name).toList ks) f) :
    ∃ front back, ks = front ++ back ∧ Blank back ∧ Formula (.ident name :: front) f := by
  unfold ofName? at h
  split at h
  · rename_i hodd
    obtain ⟨rest, heq, hrest⟩ := h
    cases heq
    exact ⟨[], ks, rfl, hrest, .odd (String.toList_inj.mp hodd)⟩
  split at h
  · rename_i heven
    obtain ⟨rest, heq, hrest⟩ := h
    cases heq
    exact ⟨[], ks, rfl, hrest, .even (String.toList_inj.mp heven)⟩
  split at h
  · rename_i unit hminus
    obtain ⟨tail, front, back, b, rfl, hks, hback, hfollows, rfl⟩ := fills_afterCoefficient.mp h
    exact ⟨front, back, hks, hback, .stepped (.minus hminus) hfollows⟩
  · obtain ⟨tail, front, back, b, hletter, hks, hback, hfollows, rfl⟩ :=
      fills_afterCoefficient.mp h
    exact ⟨front, back, hks, hback, .stepped (.letter hletter) hfollows⟩

theorem ofName?_letter (tail : List Char) (ks : List TokenKind) :
    ofName? ('n' :: tail) ks = afterCoefficient? 1 ('n' :: tail) ks := by
  simp [ofName?]

theorem ofName?_minus (unit : List Char) (ks : List TokenKind) :
    ofName? ('-' :: unit) ks = afterCoefficient? (-1) unit ks := by
  simp [ofName?]

/-- What is read is derived. -/
theorem formula_of_read {f : AnB} (h : Fills (read? ks) f) :
    ∃ front back, ks = front ++ back ∧ Blank back ∧ Formula front f := by
  unfold read? at h
  split at h
  · rename_i name r
    obtain ⟨front, back, rfl, hback, hfront⟩ := formula_of_ofName h
    exact ⟨_, back, rfl, hback, hfront⟩
  · rename_i v r
    obtain ⟨rest, hread, hrest⟩ := h
    obtain ⟨b, hb, heq⟩ := Option.map_eq_some_iff.mp hread
    cases heq
    obtain ⟨n, hv, rfl⟩ := Numeral.integer?_eq_some_iff.mp hb
    exact ⟨[.number v], r, rfl, hrest, .integer hv⟩
  · rename_i v unit r
    cases hinteger : v.integer? with
    | none =>
        rw [hinteger] at h
        exact absurd h not_fills_none
    | some a =>
        rw [hinteger] at h
        obtain ⟨n, hv, rfl⟩ := Numeral.integer?_eq_some_iff.mp hinteger
        obtain ⟨tail, front, back, b, hunit, rfl, hback, hfollows, rfl⟩ :=
          fills_afterCoefficient.mp h
        exact ⟨_, back, rfl, hback, .stepped (.dimension hv hunit) hfollows⟩
  · rename_i name r
    obtain ⟨tail, front, back, b, hletter, rfl, hback, hfollows, rfl⟩ :=
      fills_afterCoefficient.mp h
    exact ⟨_, back, rfl, hback, .stepped (.plus hletter) hfollows⟩
  · exact absurd h not_fills_none

/-- What is derived is read. -/
theorem read_of_formula {back : List TokenKind} (hback : Blank back) {f : AnB}
    (h : Formula ks f) : Fills (read? (ks ++ back)) f := by
  cases h with
  | @odd name hname =>
      refine ⟨back, ?_, hback⟩
      change ofName? (Text.lower name).toList back = _
      rw [hname]
      rfl
  | @even name hname =>
      refine ⟨back, ?_, hback⟩
      change ofName? (Text.lower name).toList back = _
      rw [hname]
      rfl
  | @integer v n hv =>
      have hinteger := Numeral.integer?_eq_some_iff.mpr ⟨n, hv, rfl⟩
      refine ⟨back, ?_, hback⟩
      change v.integer?.map (fun b => (AnB.mk 0 b, back)) = _
      rw [hinteger]
      rfl
  | @stepped ks os a b tail hlead hfollows =>
      have hafter : Fills (afterCoefficient? a ('n' :: tail) (os ++ back)) ⟨a, b⟩ :=
        fills_afterCoefficient.mpr ⟨tail, os, back, b, rfl, rfl, hback, hfollows, rfl⟩
      rw [List.append_assoc]
      cases hlead with
      | @dimension v n unit tail hv hunit =>
          have hinteger := Numeral.integer?_eq_some_iff.mpr ⟨n, hv, rfl⟩
          change Fills (v.integer?.bind fun a =>
            afterCoefficient? a (Text.lower unit).toList (os ++ back)) _
          rw [hinteger, hunit]
          exact hafter
      | @letter name tail hname =>
          change Fills (ofName? (Text.lower name).toList (os ++ back)) _
          rw [hname, ofName?_letter]
          exact hafter
      | @plus name tail hname =>
          change Fills (afterCoefficient? 1 (Text.lower name).toList (os ++ back)) _
          rw [hname]
          exact hafter
      | @minus name tail hname =>
          change Fills (ofName? (Text.lower name).toList (os ++ back)) _
          rw [hname, ofName?_minus]
          exact hafter

/-- No formula starts with whitespace. -/
theorem Formula.skipSpace_eq {f : AnB} (h : Formula ks f) (back : List TokenKind) :
    skipSpace (ks ++ back) = ks ++ back := by
  cases h with
  | stepped hlead hfollows =>
      rw [List.append_assoc]
      cases hlead <;> exact skipSpace_cons (by simp) _
  | _ => exact skipSpace_cons (by simp) _

/-- A formula is read if its tokens are filled by one. -/
theorem ofTokens?_eq_some {ts : List Token} {f : AnB} :
    ofTokens? ts = some f ↔ Fills (read? (skipSpace (ts.map Token.kind))) f := by
  unfold ofTokens? Fills
  cases read? (skipSpace (ts.map Token.kind)) with
  | none => simp
  | some x =>
      obtain ⟨g, r⟩ := x
      simp only [blank_iff, Option.some.injEq, Prod.mk.injEq]
      constructor
      · intro h
        split at h
        · cases h
          exact ⟨r, ⟨rfl, rfl⟩, ‹_›⟩
        · cases h
      · intro h
        obtain ⟨_, ⟨rfl, rfl⟩, hspace⟩ := h
        rw [if_pos hspace]

/-- What the grammar derives is read, with whitespace around it or without. -/
theorem ofTokens?_of_formula {ts : List Token} {f : AnB} {front back : List TokenKind}
    (hts : ts.map Token.kind = front ++ ks ++ back) (hfront : Blank front) (hback : Blank back)
    (hformula : Formula ks f) : ofTokens? ts = some f := by
  rw [ofTokens?_eq_some, hts, List.append_assoc, skipSpace_append hfront, hformula.skipSpace_eq]
  exact read_of_formula hback hformula

/-- **The formulas read are those of the grammar**, whitespace around them aside, and the grammar
tells what is read. -/
theorem ofTokens?_eq_some_iff {ts : List Token} {f : AnB} :
    ofTokens? ts = some f ↔ ∃ front ks back, ts.map Token.kind = front ++ ks ++ back ∧
      Blank front ∧ Blank back ∧ Formula ks f := by
  constructor
  · intro h
    rw [ofTokens?_eq_some] at h
    obtain ⟨ks, back, hks, hback, hformula⟩ := formula_of_read h
    obtain ⟨front, hfront, hts⟩ := exists_skipSpace (ts.map Token.kind)
    refine ⟨front, ks, back, ?_, hfront, hback, hformula⟩
    rw [List.append_assoc, ← hks]
    exact hts
  · intro h
    obtain ⟨front, ks, back, hts, hfront, hback, hformula⟩ := h
    exact ofTokens?_of_formula hts hfront hback hformula

end AnB

end Selectors

import Selectors.Proofs.Token.Parts

/-!
# Names written with escapes

A backslash, the number of a character in base sixteen and one blank stand for that character.  No
number has more than the six digits that are taken, and the blank parts the digits from what follows
and is swallowed.  So a text that writes each character of a name in this way is read as the name,
also where the name begins with a digit or holds what means something else outside of names.  Only
the character with the number zero cannot be written, because its escape gives the replacement
character.

* `Token.Escaped` relates a text to the characters that it writes, `Token.escape` writes them.
* `Token.takeEscape_of_writes` reads one escape, `Token.takeName_of_escaped` the whole name.
* `TokenStream.ofText_of_escaped`, `TokenStream.ofText_hash` and `TokenStream.ofText_dot` are what
  is read of the text by itself, behind a hash sign and behind a point.
-/

namespace Selectors

namespace Token

/-- The digits write the number of the character in base sixteen, with no zero in front and with
letters in either case. -/
def Writes (digits : List Char) (c : Char) : Prop :=
  digits.map Char.toLower = Nat.toDigits 16 c.toNat

instance (digits : List Char) (c : Char) : Decidable (Writes digits c) :=
  inferInstanceAs (Decidable (_ = _))

/-- A text that writes each character as a backslash, its number and one blank. -/
inductive Escaped : List Char → List Char → Prop
  | nil : Escaped [] []
  | cons {c : Char} {v digits s : List Char} (hdigits : Writes digits c) (more : Escaped v s) :
      Escaped (c :: v) ('\\' :: (digits ++ ' ' :: s))

/-- Writes each character with lowercase letters in its number. -/
def escape (v : List Char) : List Char :=
  v.flatMap fun c => '\\' :: (Nat.toDigits 16 c.toNat ++ [' '])

variable {digits s v : List Char} {c d : Char} {k n : Nat}

/-! ### Digits -/

/-- A digit in base sixteen, as the tokenizer takes it. -/
theorem isHexDigit_of_toLower (hk : k < 16) (h : d.toLower = Nat.digitChar k) :
    isHexDigit d = true ∧ hexValue d = k := by
  have hdigits : ∀ n < 128, ∀ k < 16, (Char.ofNat n).toLower = Nat.digitChar k →
      isHexDigit (Char.ofNat n) = true ∧ hexValue (Char.ofNat n) = k := by
    decide +kernel
  have hascii : d.toNat < 128 := by
    have hbound : ∀ k < 16, (Nat.digitChar k).toNat < 128 := by
      decide
    by_cases hupper : d.val ≥ 'A'.val ∧ d.val ≤ 'Z'.val
    · exact Nat.lt_of_le_of_lt hupper.2 (by decide)
    · have hlower : d.toLower = d := dif_neg hupper
      exact hlower.symm.trans h ▸ hbound k hk
  have hd := hdigits d.toNat hascii k hk
  rw [Char.ofNat_toNat] at hd
  exact hd h

/-- Digits are read as the number that they write. -/
theorem read_digits (h : digits.map Char.toLower = Nat.toDigits 16 n) :
    (∀ d ∈ digits, isHexDigit d = true) ∧
      digits.foldl (fun n d => 16 * n + hexValue d) 0 = n := by
  induction n using Nat.strong_induction_on generalizing digits with
  | _ n ih =>
      rw [Nat.toDigits_eq_if (by decide)] at h
      split at h
      · rename_i hn
        obtain ⟨d, rfl, hd⟩ := List.map_eq_singleton_iff.mp h
        obtain ⟨hdigit, hvalue⟩ := isHexDigit_of_toLower hn hd
        exact ⟨List.forall_mem_singleton.mpr hdigit, by simp [hvalue]⟩
      · rename_i hn
        obtain ⟨front, last, rfl, hfront, hlast⟩ := List.map_eq_append_iff.mp h
        obtain ⟨d, rfl, hd⟩ := List.map_eq_singleton_iff.mp hlast
        obtain ⟨hdigit, hvalue⟩ := isHexDigit_of_toLower (Nat.mod_lt n (by decide)) hd
        obtain ⟨hdigits, hnumber⟩ := ih (n / 16) (by omega) hfront
        refine ⟨List.forall_mem_append.mpr ⟨hdigits, List.forall_mem_singleton.mpr hdigit⟩, ?_⟩
        rw [List.foldl_append, hnumber, List.foldl_cons, List.foldl_nil, hvalue]
        omega

/-- What writes a character are hexadecimal digits. -/
theorem Writes.isHexDigit (h : Writes digits c) : ∀ d ∈ digits, isHexDigit d = true :=
  (read_digits h).1

/-- The number of no character has more than six digits. -/
theorem Writes.length_le (h : Writes digits c) : digits.length ≤ 6 := by
  have hlength := congrArg List.length h
  rw [List.length_map] at hlength
  rw [hlength, Nat.length_toDigits_le_iff (by decide) (by decide)]
  rcases c.valid with hbefore | hbehind
  · exact Nat.lt_trans hbefore (by decide)
  · exact Nat.lt_trans hbehind.2 (by decide)

/-- A character is written with one digit at least. -/
theorem Writes.ne_nil (h : Writes digits c) : digits ≠ [] := by
  rintro rfl
  exact Nat.toDigits_ne_nil h.symm

/-- The digits give the character back. -/
theorem Writes.charOfHex_eq (h : Writes digits c) (hzero : c ≠ '\x00') : charOfHex digits = c := by
  rw [charOfHex, (read_digits h).2, Char.ofNat_toNat]
  exact if_neg (by simpa using hzero)

/-- **Digits and a blank are read as the character**, whatever follows.  The blank is no digit, so
the digits in front of it are all that are taken. -/
theorem takeEscape_of_writes (h : Writes digits c) (hzero : c ≠ '\x00') (rest : List Char) :
    takeEscape (digits ++ ' ' :: rest) = (c, rest) := by
  obtain ⟨d, ds, rfl⟩ := List.exists_cons_of_ne_nil h.ne_nil
  have hlength : ds.length ≤ 5 := Nat.le_of_succ_le_succ h.length_le
  have hfirst : isHexDigit d = true := h.isHexDigit d List.mem_cons_self
  have hmore : ((ds ++ ' ' :: rest).take 5).takeWhile isHexDigit = ds := by
    rw [List.take_append, List.take_of_length_le hlength, List.takeWhile_append_of_pos
      fun x hx => h.isHexDigit x (List.mem_cons_of_mem d hx)]
    cases 5 - ds.length with
    | zero => simp
    | succ k => simp [isHexDigit]
  rw [List.cons_append, takeEscape, if_pos hfirst]
  simp only [hmore, List.drop_left, h.charOfHex_eq hzero]
  rfl

/-! ### Names -/

/-- A backslash before digits is no backslash before a line end. -/
theorem escapes_of_writes (h : Writes digits c) (rest : List Char) :
    escapes (digits ++ rest) = true := by
  obtain ⟨d, ds, rfl⟩ := List.exists_cons_of_ne_nil h.ne_nil
  have hdigit := h.isHexDigit d List.mem_cons_self
  have hline : d ≠ '\n' := by
    rintro rfl
    cases hdigit
  simpa [escapes] using hline

/-- An escaped character is a character of a name. -/
theorem nameChar?_of_writes (h : Writes digits c) (hzero : c ≠ '\x00') (rest : List Char) :
    nameChar? ('\\' :: (digits ++ ' ' :: rest)) = some (c, rest) := by
  rw [nameChar?, if_neg (by decide), escapes_of_writes h, takeEscape_of_writes h hzero]
  rfl

/-- **A text that writes a name is read as the name** and nothing is left of it. -/
theorem takeName_of_escaped (h : Escaped v s) (hzero : '\x00' ∉ v) : takeName s = (v, []) := by
  induction h with
  | nil => exact takeName_of_none rfl
  | cons hdigits _ ih =>
      have hc := List.ne_of_not_mem_cons hzero
      rw [takeName_of_some (nameChar?_of_writes hdigits hc.symm _),
        ih (List.not_mem_of_not_mem_cons hzero)]

/-- Lowercase letters are one way to write the digits. -/
theorem writes_toDigits (c : Char) : Writes (Nat.toDigits 16 c.toNat) c := by
  have hlower : ∀ k < 16, (Nat.digitChar k).toLower = Nat.digitChar k := by
    decide
  have hdigits : ∀ n, (Nat.toDigits 16 n).map Char.toLower = Nat.toDigits 16 n := by
    intro n
    induction n using Nat.strong_induction_on with
    | _ n ih =>
        rw [Nat.toDigits_eq_if (by decide)]
        split
        · rename_i hn
          rw [List.map_singleton, hlower n hn]
        · rename_i hn
          rw [List.map_append, ih (n / 16) (by omega), List.map_singleton,
            hlower _ (Nat.mod_lt n (by decide))]
  exact hdigits c.toNat

/-- **Each name can be written with escapes.** -/
theorem escaped_escape (v : List Char) : Escaped v (escape v) := by
  induction v with
  | nil => exact .nil
  | cons c v ih =>
      have hcons : escape (c :: v) = '\\' :: (Nat.toDigits 16 c.toNat ++ ' ' :: escape v) := by
        simp [escape]
      exact hcons ▸ .cons (writes_toDigits c) ih

/-! ### Tokens -/

/-- Normalising replaces nothing in escapes. -/
theorem Escaped.normal (h : Escaped v s) : Normal s := by
  induction h with
  | nil => exact fun _ hc => absurd hc List.not_mem_nil
  | cons hdigits _ ih =>
      refine List.forall_mem_cons.mpr ⟨by decide, List.forall_mem_append.mpr ⟨?_, ?_⟩⟩
      · intro d hd
        have hdigit := hdigits.isHexDigit d hd
        refine ⟨?_, ?_, ?_⟩ <;>
          (rintro rfl
           cases hdigit)
      · exact List.forall_mem_cons.mpr ⟨by decide, ih⟩

/-- An escaped name begins with an escape. -/
theorem Escaped.exists_cons (h : Escaped v s) (hne : v ≠ []) :
    ∃ r, s = '\\' :: r ∧ escapes r = true := by
  cases h with
  | nil => exact absurd rfl hne
  | cons hdigits _ => exact ⟨_, rfl, escapes_of_writes hdigits _⟩

/-- A text that is one token. -/
theorem lexFrom_of_scan {kind : TokenKind} {r : List Char} (hslash : c ≠ '/')
    (hscan : scan c r = (kind, [])) (o : Nat) :
    lexFrom (c :: r) o = [⟨kind, o, o + (r.length + 1)⟩] := by
  rw [lexFrom_of_cons (skipComments_cons hslash), hscan, lexFrom_nil, first, hscan]
  simp

/-- **The name is the only token.** -/
theorem lexFrom_of_escaped (h : Escaped v s) (hne : v ≠ []) (hzero : '\x00' ∉ v) (o : Nat) :
    lexFrom s o = [⟨.ident (String.ofList v), o, o + s.length⟩] := by
  have hname := takeName_of_escaped h hzero
  obtain ⟨r, rfl, hescapes⟩ := h.exists_cons hne
  refine lexFrom_of_scan (by decide) ?_ o
  have hscan : scan '\\' r = scanName ('\\' :: r) := by
    simp [scan, isBlank, startsName, Text.isAscii, hescapes]
  rw [hscan, scanName, hname]

/-- Behind a number sign an escaped name is an identifier, and nothing else is read. -/
theorem lexFrom_hash (h : Escaped v s) (hne : v ≠ []) (hzero : '\x00' ∉ v) (o : Nat) :
    lexFrom ('#' :: s) o = [⟨.hash (String.ofList v) .id, o, o + (s.length + 1)⟩] := by
  have hname := takeName_of_escaped h hzero
  obtain ⟨r, rfl, hescapes⟩ := h.exists_cons hne
  have hatName : atName ('\\' :: r) = true := hescapes
  refine lexFrom_of_scan (by decide) ?_ o
  change scanHash ('\\' :: r) = _
  rw [scanHash, if_pos (nameChar?_isSome_of_atName hatName), hname, if_pos hatName]

/-- Behind a point an escaped name is a class, and nothing else is read. -/
theorem lexFrom_dot (h : Escaped v s) (hne : v ≠ []) (hzero : '\x00' ∉ v) (o : Nat) :
    lexFrom ('.' :: s) o =
      [⟨.delim '.', o, o + 1⟩, ⟨.ident (String.ofList v), o + 1, o + 1 + s.length⟩] := by
  have hlex := lexFrom_of_escaped h hne hzero
  obtain ⟨r, rfl, -⟩ := h.exists_cons hne
  have hscan : scan '.' ('\\' :: r) = (.delim '.', '\\' :: r) := rfl
  rw [lexFrom_of_cons (skipComments_cons (by decide)), hscan, hlex, first, hscan]
  simp

end Token

namespace TokenStream

open Token

variable {v text : String}

/-- The tokens of a text that normalising leaves alone, if none is refused. -/
theorem ofText_of_normal {s : List Char} {ts : List Token} (htext : text.toList = s)
    (hnormal : Normal s) (hlex : lexFrom s 0 = ts) (hbalanced : balanced [] ts = true) :
    ofText text = .ok ⟨s, ts⟩ := by
  have hread : read text = ⟨s, ts⟩ := by
    rw [read, htext, normalize_of_normal hnormal, lex, hlex]
  rw [ofText_eq_ok_iff, hread]
  exact ⟨hbalanced, rfl⟩

variable (h : Escaped v.toList text.toList) (hne : v ≠ "") (hzero : '\x00' ∉ v.toList)

include h hne hzero

/-- **By itself the text is the name.** -/
theorem ofText_of_escaped :
    ofText text = .ok ⟨text.toList, [⟨.ident v, 0, text.toList.length⟩]⟩ := by
  have hlex := lexFrom_of_escaped h (by simpa using hne) hzero 0
  rw [String.ofList_toList, Nat.zero_add] at hlex
  exact ofText_of_normal rfl h.normal hlex rfl

/-- **Behind a hash sign** it is an id. -/
theorem ofText_hash :
    ofText ("#" ++ text) =
      .ok ⟨'#' :: text.toList, [⟨.hash v .id, 0, text.toList.length + 1⟩]⟩ := by
  have hlex := lexFrom_hash h (by simpa using hne) hzero 0
  rw [String.ofList_toList, Nat.zero_add] at hlex
  exact ofText_of_normal (by simp) (List.forall_mem_cons.mpr ⟨by decide, h.normal⟩) hlex rfl

/-- **Behind a point** the name stands as it does alone. -/
theorem ofText_dot :
    ofText ("." ++ text) = .ok ⟨'.' :: text.toList,
      [⟨.delim '.', 0, 1⟩, ⟨.ident v, 1, 1 + text.toList.length⟩]⟩ := by
  have hlex := lexFrom_dot h (by simpa using hne) hzero 0
  rw [String.ofList_toList] at hlex
  exact ofText_of_normal (by simp) (List.forall_mem_cons.mpr ⟨by decide, h.normal⟩) hlex rfl

end TokenStream

end Selectors

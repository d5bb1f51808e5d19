import Mathlib.Data.List.Basic
import Selectors.Proofs.Token.Numbers

/-!
# Cutting a text between tokens

The tokens of a part of a text are those that the whole text has there, if the part begins where a
token begins and ends where a token ends.  In front that is so because a token is read from its
first character on, whatever stands before it.  At the end it needs that no token of the part is of
a kind that no selector holds, that the part does not end with whitespace, and that it ends with a
function only if nothing but whitespace follows.

* `Token.CleanCut` says what may not be torn apart behind one token, and `Token.scan_cut` that the
  token is then read as before.
* `Token.Severed` says the same of a run of tokens and what follows it.
* `Token.lexFrom_drop` is about the front, `Token.lexFrom_cut` about the end.
-/

namespace Selectors

namespace Token

variable {s y z v : List Char} {c : Char} {k : TokenKind}

/-! ### One token -/

/-- Whether a quote comes next. -/
def atQuote (s : List Char) : Bool :=
  s.head? == some '"' || s.head? == some '\''

/-- Behind a token of kind `k` stands `y`, and the text may be cut behind that, before `v`. -/
structure CleanCut (k : TokenKind) (y v : List Char) : Prop where
  allowed : k.forbidden = false
  untorn : ¬Torn y v
  /-- The quote that makes `url(` a function is not cut off. -/
  unquoted : ∀ name, k = .function name → dropBlank y = [] → atQuote (dropBlank (y ++ v)) = false

/-- A token that a cut leaves whole is of none of the kinds that no selector holds. -/
theorem CleanCut.ne_of_forbidden {k' : TokenKind} (hcut : CleanCut k y v)
    (hforbidden : k'.forbidden = true) : k' ≠ k := by
  rintro rfl
  rw [hcut.allowed] at hforbidden
  cases hforbidden

/-- Only a hyphen and a backslash can be torn from what follows them. -/
theorem not_torn_cons (hhyphen : c ≠ '-') (hslash : c ≠ '\\') : ¬Torn (c :: y) v := by
  rintro ⟨-, h | h⟩
  · exact hslash (List.cons_eq_cons.mp h).1
  · exact hhyphen (List.cons_eq_cons.mp h).1

/-- A number leaves no more than its numeral does: what follows it may be read as its unit. -/
theorem scanNumber_suffix_takeNumeral (s : List Char) :
    (scanNumber s).2 <:+ (takeNumeral s).2 := by
  unfold scanNumber
  simp only
  split
  · exact takeName_suffix _
  · split
    · rename_i r hr
      rw [hr]
      exact List.suffix_cons _ _
    · exact List.suffix_rfl

/-- **Numbers**: a number in front of a cut that tears nothing is read as before. -/
theorem scanNumber_cut (htorn : ¬Torn y v) (h : scanNumber (z ++ v) = (k, y ++ v)) :
    scanNumber z = (k, y) := by
  have hleft := scanNumber_suffix_takeNumeral (z ++ v)
  rw [h] at hleft
  obtain ⟨w, hw⟩ := ends_of_suffix (takeNumeral_suffix (z ++ v)) (length_le_of_suffix_append hleft)
  have hread : takeNumeral z = ((takeNumeral (z ++ v)).1, w) :=
    local_takeNumeral.cut (Prod.ext rfl hw)
  unfold scanNumber at h ⊢
  simp only [hread, hw] at h ⊢
  split at h
  · rename_i hunit
    obtain ⟨hkind, hrest⟩ := Prod.ext_iff.mp h
    have hname : takeName (w ++ v) = ((takeName (w ++ v)).1, y ++ v) := Prod.ext rfl hrest
    rw [if_pos (atName_of_append hunit hname), takeName_cut htorn hname]
    exact Prod.ext hkind rfl
  · rename_i hunit
    split at h
    · rename_i rest hpercent
      obtain ⟨hkind, rfl⟩ := Prod.ext_iff.mp h
      rw [← List.cons_append] at hpercent
      rw [List.append_cancel_right hpercent, if_neg (by rw [atName_cons_of_ne] <;> decide)]
      exact Prod.ext hkind rfl
    · rename_i hnot
      obtain ⟨hkind, hrest⟩ := Prod.ext_iff.mp h
      have hsame := List.append_cancel_right hrest
      subst hsame
      rw [if_neg fun hname => hunit (atName_append hname htorn)]
      split
      · exact absurd rfl (hnot _)
      · exact Prod.ext hkind rfl

theorem atQuote_append (hs : s ≠ []) : atQuote (s ++ v) = atQuote s := by
  cases s with
  | nil => exact absurd rfl hs
  | cons c s => rfl

theorem ne_nil_of_atQuote (h : atQuote s = true) : s ≠ [] := by
  rintro rfl
  cases h

/-- Whether a quote follows the blanks says how the arguments of `url(` are read. -/
theorem scanUrl_eq (name s : List Char) :
    scanUrl name s =
      if atQuote (s.dropWhile isBlank) then (.function (String.ofList name), squeezeBlanks s)
      else
        match takeUrl (s.dropWhile isBlank) with
        | (some value, rest) => (.url (String.ofList value), rest)
        | (none, rest) => (.badUrl, rest) := by
  rw [scanUrl]
  simp only [dropBlank_squeezeBlanks, dropWhile_squeezeBlanks]
  rfl

/-- **Addresses**: what follows `url(` is read as before.  Where a quote makes a function of it, the
quote stands in front of the cut, as `CleanCut.unquoted` says. -/
theorem scanUrl_cut {name : List Char} (hcut : CleanCut k y v)
    (h : scanUrl name (z ++ v) = (k, y ++ v)) : scanUrl name z = (k, y) := by
  rw [scanUrl_eq] at h ⊢
  split at h
  · rename_i hquote
    obtain ⟨hkind, hrest⟩ := Prod.ext_iff.mp h
    have hquote' : atQuote (dropBlank (y ++ v)) = true := by
      have hrest' : squeezeBlanks (z ++ v) = y ++ v := hrest
      rw [← hrest', dropBlank_squeezeBlanks]
      exact hquote
    have hbefore : dropBlank y ≠ [] := fun hnil => by
      rw [hcut.unquoted _ hkind.symm hnil] at hquote'
      cases hquote'
    have hy : y ≠ [] := by
      rintro rfl
      exact hbefore rfl
    have hread : squeezeBlanks z = y := squeezeBlanks_cut hrest hy
    have hdrop : dropBlank (y ++ v) = dropBlank y ++ v := by
      cases y with
      | nil => exact absurd rfl hy
      | cons d y =>
          simp only [List.cons_append, dropBlank]
          split <;> rfl
    rw [hdrop, atQuote_append hbefore, ← hread, dropBlank_squeezeBlanks] at hquote'
    rw [if_pos hquote', hread]
    exact Prod.ext hkind rfl
  · rename_i hquote
    split at h
    · rename_i value rest hread
      obtain ⟨hkind, rfl⟩ := Prod.ext_iff.mp h
      have hleft := takeUrl_suffix ((z ++ v).dropWhile isBlank)
      rw [hread] at hleft
      obtain ⟨w, hw⟩ :=
        ends_of_suffix (List.dropWhile_suffix isBlank) (length_le_of_suffix_append hleft)
      rw [hw] at hread hquote
      have hblanks : z.dropWhile isBlank = w := dropWhile_cut hw
      rw [hblanks, if_neg, takeUrl_cut hread]
      · exact Prod.ext hkind rfl
      · intro hquote'
        rw [atQuote_append (ne_nil_of_atQuote hquote')] at hquote
        exact hquote hquote'
    · have hbad : TokenKind.badUrl = k := congrArg Prod.fst h
      exact absurd hbad (hcut.ne_of_forbidden rfl)

/-- A name leaves no more than its letters do: a parenthesis behind it may be read with it. -/
theorem scanName_suffix_takeName (s : List Char) : (scanName s).2 <:+ (takeName s).2 := by
  unfold scanName
  simp only
  split
  · rename_i rest hr
    rw [hr]
    split
    · exact (scanUrl_suffix _ rest).trans (List.suffix_cons _ _)
    · exact List.suffix_cons _ _
  · exact List.suffix_rfl

/-- **Names**: an identifier or a function in front of a clean cut is read as before.  The
parenthesis of a function stands in front of the cut, because the token ends behind it. -/
theorem scanName_cut (hcut : CleanCut k y v) (h : scanName (z ++ v) = (k, y ++ v)) :
    scanName z = (k, y) := by
  have hleft := scanName_suffix_takeName (z ++ v)
  rw [h] at hleft
  obtain ⟨w, hw⟩ := ends_of_suffix (takeName_suffix (z ++ v)) (length_le_of_suffix_append hleft)
  have hname : takeName (z ++ v) = ((takeName (z ++ v)).1, w ++ v) := Prod.ext rfl hw
  unfold scanName at h ⊢
  simp only [hw] at h
  split at h
  · rename_i rest hopen
    obtain ⟨w', rfl⟩ : ∃ w', w = '(' :: w' := by
      cases w with
      | cons d w => exact ⟨w, by rw [(List.cons_eq_cons.mp hopen).1]⟩
      | nil =>
          have hrest : y ++ v <:+ rest := by
            split at h
            · have hrest : (scanUrl _ rest).2 = y ++ v := congrArg Prod.snd h
              exact hrest ▸ scanUrl_suffix _ rest
            · have hrest : rest = y ++ v := congrArg Prod.snd h
              exact hrest ▸ List.suffix_rfl
          rw [List.nil_append] at hopen
          rw [hopen] at hrest
          exact absurd (length_le_of_suffix_append hrest) (Nat.not_succ_le_self _)
    obtain ⟨-, rfl⟩ := List.cons_eq_cons.mp hopen
    rw [takeName_cut (not_torn_cons (by decide) (by decide)) hname]
    simp only
    split at h
    · rename_i hurl
      rw [if_pos hurl]
      exact scanUrl_cut hcut h
    · rename_i hurl
      obtain ⟨hkind, hrest⟩ := Prod.ext_iff.mp h
      rw [if_neg hurl]
      exact Prod.ext hkind (List.append_cancel_right hrest)
  · rename_i hnot
    obtain ⟨hkind, hrest⟩ := Prod.ext_iff.mp h
    have hsame := List.append_cancel_right hrest
    subst hsame
    rw [takeName_cut hcut.untorn hname]
    simp only
    split
    · exact absurd rfl (hnot _)
    · exact Prod.ext hkind rfl

/-- A name ends before a backslash that escapes nothing. -/
theorem torn_of_takeName {name : List Char} (hz : Torn z v)
    (h : takeName (z ++ v) = (name, y ++ v)) : Torn y v := by
  obtain ⟨hline, hz⟩ := hz
  have hslash : takeName ('\\' :: v) = ([], '\\' :: v) := by
    have hescapes : escapes v = false := by
      simp [escapes, hline]
    exact takeName_of_none (by simp [nameChar?, continuesName, startsName, Text.isAscii, hescapes])
  have hrest : (takeName (z ++ v)).2 = ['\\'] ++ v := by
    rcases hz with rfl | rfl
    · exact congrArg Prod.snd hslash
    · have hhyphen : takeName ('-' :: '\\' :: v) =
          ('-' :: (takeName ('\\' :: v)).1, (takeName ('\\' :: v)).2) :=
        takeName_of_some (by simp [nameChar?, continuesName])
      rw [List.cons_append, List.singleton_append, hhyphen, hslash]
  rw [h] at hrest
  exact ⟨hline, Or.inl (List.append_cancel_right hrest)⟩

/-- Whether a text begins with a name is seen before the cut, if what name characters there are end
before it. -/
theorem atName_cut {name : List Char} (htorn : ¬Torn y v)
    (h : takeName (z ++ v) = (name, y ++ v)) : atName z = atName (z ++ v) := by
  rw [Bool.eq_iff_iff]
  constructor
  · intro hz
    exact atName_append hz fun hz => htorn (torn_of_takeName hz h)
  · intro hall
    exact atName_of_append hall h

/-- What follows a number sign is read as before. -/
theorem scanHash_cut (hcut : CleanCut k y v) (h : scanHash (z ++ v) = (k, y ++ v)) :
    scanHash z = (k, y) := by
  unfold scanHash at h ⊢
  split at h
  · rename_i hsome
    obtain ⟨hkind, hrest⟩ := Prod.ext_iff.mp h
    have hname : takeName (z ++ v) = ((takeName (z ++ v)).1, y ++ v) := Prod.ext rfl hrest
    have hread := takeName_cut hcut.untorn hname
    have hsome' : (nameChar? z).isSome = true := by
      have hshorter := takeName_length hsome
      rw [hname, List.length_append, List.length_append] at hshorter
      rw [Option.isSome_iff_ne_none]
      intro hnone
      rw [takeName_of_none hnone] at hread
      have hsame : z = y := congrArg Prod.snd hread
      rw [hsame] at hshorter
      exact Nat.lt_irrefl _ hshorter
    rw [if_pos hsome', hread, atName_cut hcut.untorn hname]
    exact Prod.ext hkind rfl
  · rename_i hnone
    obtain ⟨hkind, hrest⟩ := Prod.ext_iff.mp h
    have hsame := List.append_cancel_right hrest
    subst hsame
    have hnone' : nameChar? z = none :=
      nameChar?_eq_none_of_append (by simpa using hnone) hcut.untorn
    rw [hnone', if_neg (by decide)]
    exact Prod.ext hkind rfl

/-- A string is read as before, because it ends with its own quote. -/
theorem scanString_cut (hcut : CleanCut k y v) (h : scanString c (z ++ v) = (k, y ++ v)) :
    scanString c z = (k, y) := by
  unfold scanString at h ⊢
  split at h
  · rename_i value rest hread
    obtain ⟨hkind, rfl⟩ := Prod.ext_iff.mp h
    rw [takeString_cut hread]
    exact Prod.ext hkind rfl
  · have hbad : TokenKind.badString = k := congrArg Prod.fst h
    exact absurd hbad (hcut.ne_of_forbidden rfl)

/-- What follows an at sign is read as before. -/
theorem scanAt_cut (hcut : CleanCut k y v) (h : scanAt (z ++ v) = (k, y ++ v)) :
    scanAt z = (k, y) := by
  unfold scanAt at h ⊢
  split at h
  · have hat : TokenKind.atKeyword _ = k := congrArg Prod.fst h
    exact absurd hat (hcut.ne_of_forbidden rfl)
  · rename_i hname
    obtain ⟨hkind, hrest⟩ := Prod.ext_iff.mp h
    have hsame := List.append_cancel_right hrest
    subst hsame
    rw [if_neg fun hz => hname (atName_append hz hcut.untorn)]
    exact Prod.ext hkind rfl

/-- What follows a hyphen is read as before, be it a number, a name or nothing of the token's
own. -/
theorem scanHyphen_cut (hcut : CleanCut k y v) (h : scanHyphen (z ++ v) = (k, y ++ v)) :
    scanHyphen z = (k, y) := by
  unfold scanHyphen at h ⊢
  rw [← List.cons_append] at h
  split at h
  · rename_i hnumber
    have hleft := scanNumber_suffix_takeNumeral ('-' :: z ++ v)
    rw [h] at hleft
    obtain ⟨w, hw⟩ :=
      ends_of_suffix (takeNumeral_suffix ('-' :: z ++ v)) (length_le_of_suffix_append hleft)
    rw [if_pos (atNumber_of_append hnumber hw)]
    exact scanNumber_cut hcut.untorn h
  rename_i hnumber
  rw [if_neg fun hz => hnumber (atNumber_append hz)]
  split at h
  · have hend : TokenKind.cdc = k := congrArg Prod.fst h
    exact absurd hend (hcut.ne_of_forbidden rfl)
  rename_i hnot
  split
  · exact absurd rfl (hnot _)
  split at h
  · rename_i hname
    have hleft := scanName_suffix_takeName ('-' :: z ++ v)
    rw [h] at hleft
    obtain ⟨w, hw⟩ :=
      ends_of_suffix (takeName_suffix ('-' :: z ++ v)) (length_le_of_suffix_append hleft)
    rw [if_pos (atName_of_append hname (Prod.ext rfl hw))]
    exact scanName_cut hcut h
  · rename_i hname
    obtain ⟨hkind, hrest⟩ := Prod.ext_iff.mp h
    have hsame := List.append_cancel_right hrest
    subst hsame
    rw [if_neg]
    · exact Prod.ext hkind rfl
    · intro hz
      refine hname (atName_append hz ?_)
      rintro ⟨hline, hy⟩
      refine hcut.untorn ⟨hline, Or.inl ?_⟩
      simpa using hy

/-- What follows a less-than sign is read as before. -/
theorem scanLess_cut (hcut : CleanCut k y v) (h : scanLess (z ++ v) = (k, y ++ v)) :
    scanLess z = (k, y) := by
  unfold scanLess at h ⊢
  split at h
  · have hbegin : TokenKind.cdo = k := congrArg Prod.fst h
    exact absurd hbegin (hcut.ne_of_forbidden rfl)
  · rename_i hnot
    obtain ⟨hkind, hrest⟩ := Prod.ext_iff.mp h
    have hsame := List.append_cancel_right hrest
    subst hsame
    split
    · exact absurd rfl (hnot _)
    · exact Prod.ext hkind rfl

/-- A choice between two readings is the same choice in the cut text, if the condition is. -/
theorem ite_cut {p p' : Prop} [Decidable p] [Decidable p'] {a b a' b' x x' : TokenKind × List Char}
    (hp : p ↔ p') (hthen : p → a = x → a' = x') (helse : ¬p → b = x → b' = x')
    (h : (if p then a else b) = x) : (if p' then a' else b') = x' := by
  split at h
  · rename_i hc
    rw [if_pos (hp.mp hc)]
    exact hthen hc h
  · rename_i hc
    rw [if_neg fun hc' => hc (hp.mpr hc')]
    exact helse hc h

/-- A token of one character. -/
theorem single_cut {k' : TokenKind} (h : (k', z ++ v) = (k, y ++ v)) : (k', z) = (k, y) := by
  obtain ⟨hkind, hrest⟩ := Prod.ext_iff.mp h
  exact Prod.ext hkind (List.append_cancel_right hrest)

/-- **A token that ends before a clean cut is read without what follows it.** -/
theorem scan_cut (hcut : CleanCut k y v) (h : scan c (z ++ v) = (k, y ++ v)) :
    scan c z = (k, y) := by
  unfold scan at h ⊢
  revert h
  refine ite_cut Iff.rfl (fun _ h => ?_) fun _ => ?_
  · obtain ⟨hkind, hrest⟩ := Prod.ext_iff.mp h
    exact Prod.ext hkind (dropWhile_cut hrest)
  refine ite_cut Iff.rfl (fun _ => scanString_cut hcut) fun _ => ?_
  refine ite_cut Iff.rfl (fun _ => scanHash_cut hcut) fun _ => ?_
  refine ite_cut Iff.rfl (fun _ => scanHyphen_cut hcut) fun _ => ?_
  refine ite_cut Iff.rfl (fun _ => scanLess_cut hcut) fun _ => ?_
  refine ite_cut Iff.rfl (fun _ => scanAt_cut hcut) fun _ => ?_
  refine ite_cut Iff.rfl (fun _ h => ?_) fun _ => ?_
  · split at h
    · rename_i hnumber
      have hleft := scanNumber_suffix_takeNumeral (c :: z ++ v)
      rw [List.cons_append, h] at hleft
      obtain ⟨w, hw⟩ :=
        ends_of_suffix (takeNumeral_suffix (c :: z ++ v)) (length_le_of_suffix_append hleft)
      rw [if_pos (atNumber_of_append hnumber hw)]
      exact scanNumber_cut hcut.untorn h
    · rename_i hnumber
      rw [if_neg fun hz => hnumber (atNumber_append hz)]
      exact single_cut h
  refine ite_cut Iff.rfl (fun _ => scanNumber_cut (z := c :: z) hcut.untorn) fun _ h => ?_
  split at h
  · rename_i hstarts
    have hstarts' : (startsName c || (c == '\\' && escapes z)) = true := by
      simp only [Bool.or_eq_true, Bool.and_eq_true] at hstarts ⊢
      exact hstarts.imp id fun hescape => ⟨hescape.1, escapes_of_append hescape.2⟩
    rw [if_pos hstarts']
    exact scanName_cut (z := c :: z) hcut h
  · rename_i hstarts
    rw [if_neg]
    · exact single_cut h
    · intro hstarts'
      simp only [Bool.or_eq_true, Bool.and_eq_true, not_or, not_and] at hstarts hstarts'
      rcases hstarts' with hletter | ⟨hslash, -⟩
      · exact hstarts.1 hletter
      · have hbare : scanSingle c = k := congrArg Prod.fst h
        rw [beq_iff_eq.mp hslash] at hbare
        exact hcut.ne_of_forbidden rfl hbare

/-! ### A run of tokens -/

/-- The token with its place moved on. -/
def moved (d : Nat) (t : Token) : Token :=
  { t with start := t.start + d, stop := t.stop + d }

/-- The first token of a text that begins with no comment. -/
def first (s : List Char) (o : Nat) (c : Char) (r : List Char) : Token where
  kind := (scan c r).1
  start := o + (s.length - (r.length + 1))
  stop := o + (s.length - (r.length + 1)) + (r.length + 1 - (scan c r).2.length)

variable {o d : Nat} {r : List Char} {t u : Token} {before ts after : List Token}

/-- A text of comments only has no tokens. -/
theorem lexFrom_of_nil (h : skipComments s = []) : lexFrom s o = [] := by
  rw [lexFrom]
  split
  · rfl
  · rename_i hcons
    rw [h] at hcons
    cases hcons

theorem lexFrom_nil : lexFrom [] o = [] :=
  lexFrom_of_nil (skipComments.eq_2 [] fun _ h => by cases h)

/-- Only a slash begins a comment. -/
theorem skipComments_cons (hslash : c ≠ '/') : skipComments (c :: r) = c :: r :=
  skipComments.eq_2 _ fun _ h => hslash (List.cons_eq_cons.mp h).1

/-- Behind comments the first token is read, and then the rest of the text. -/
theorem lexFrom_of_cons (h : skipComments s = c :: r) :
    lexFrom s o = first s o c r :: lexFrom (scan c r).2 (first s o c r).stop := by
  rw [lexFrom]
  split
  · rename_i hnil
    rw [h] at hnil
    cases hnil
  · rename_i hcons
    rw [h] at hcons
    cases hcons
    rfl

/-- A text that has tokens has a character behind its comments, and the first token begins there. -/
theorem exists_of_lexFrom (h : lexFrom s o = t :: ts) :
    ∃ c r, skipComments s = c :: r ∧ t = first s o c r ∧
      ts = lexFrom (scan c r).2 (first s o c r).stop := by
  cases hskip : skipComments s with
  | nil =>
      rw [lexFrom_of_nil hskip] at h
      cases h
  | cons c r =>
      rw [lexFrom_of_cons hskip] at h
      obtain ⟨rfl, rfl⟩ := List.cons_eq_cons.mp h
      exact ⟨c, r, rfl, rfl, rfl⟩

/-- Where the first token ends, and how much is left there. -/
theorem first_bounds (h : skipComments s = c :: r) :
    o ≤ (first s o c r).start ∧ (first s o c r).start < (first s o c r).stop ∧
      (first s o c r).stop + (scan c r).2.length = o + s.length := by
  have hcomments := (skipComments_suffix s).length_le
  have htoken := (scan_suffix c r).length_le
  rw [h, List.length_cons] at hcomments
  simp only [first]
  omega

/-- The tokens stand one behind the other within the text. -/
theorem lexFrom_bounds (h : t ∈ lexFrom s o) :
    o ≤ t.start ∧ t.start < t.stop ∧ t.stop ≤ o + s.length := by
  induction hsize : s.length using Nat.strong_induction_on generalizing s o with
  | _ size ih =>
      cases hskip : skipComments s with
      | nil =>
          rw [lexFrom_of_nil hskip] at h
          cases h
      | cons c r =>
          obtain ⟨hstart, hlength, hstop⟩ := first_bounds (o := o) hskip
          rw [lexFrom_of_cons hskip] at h
          rcases List.mem_cons.mp h with rfl | hmore
          · omega
          · have := ih (scan c r).2.length (by omega) hmore rfl
            omega

/-- Where the text stands only moves its tokens. -/
theorem lexFrom_add (s : List Char) (o d : Nat) :
    lexFrom s (o + d) = (lexFrom s o).map (moved d) := by
  induction hsize : s.length using Nat.strong_induction_on generalizing s o with
  | _ size ih =>
      cases hskip : skipComments s with
      | nil => rw [lexFrom_of_nil hskip, lexFrom_of_nil hskip, List.map_nil]
      | cons c r =>
          obtain ⟨hstart, hlength, hstop⟩ := first_bounds (o := o) hskip
          have hfirst : first s (o + d) c r = (first s o c r).moved d := by
            simp only [first, moved, Token.mk.injEq, true_and]
            omega
          rw [lexFrom_of_cons hskip, lexFrom_of_cons hskip, List.map_cons, hfirst]
          congr 1
          exact ih _ (by omega) _ _ rfl

/-- Behind comments stand no further comments. -/
theorem skipComments_skipComments (s : List Char) :
    skipComments (skipComments s) = skipComments s := by
  fun_induction skipComments s with
  | case1 r ih => exact ih
  | case2 s h => exact skipComments.eq_2 s h

/-- **Cutting in front of a token** leaves it and those behind it. -/
theorem lexFrom_drop (h : lexFrom s o = before ++ t :: after) :
    lexFrom (s.drop (t.start - o)) t.start = t :: after := by
  induction before generalizing s o with
  | nil =>
      obtain ⟨c, r, hskip, rfl, rfl⟩ := exists_of_lexFrom h
      have hsuffix := skipComments_suffix s
      rw [hskip] at hsuffix
      have hdrop : s.drop ((first s o c r).start - o) = c :: r := by
        rw [List.suffix_iff_eq_drop.mp hsuffix]
        congr 1
        simp only [first, List.length_cons]
        omega
      have hskip' : skipComments (c :: r) = c :: r := by
        rw [← hskip, skipComments_skipComments]
      have hfirst : first (c :: r) (first s o c r).start c r = first s o c r := by
        simp only [first, List.length_cons, Token.mk.injEq, true_and]
        omega
      rw [hdrop, lexFrom_of_cons hskip', hfirst]
  | cons u before ih =>
      obtain ⟨c, r, hskip, rfl, hmore⟩ := exists_of_lexFrom h
      obtain ⟨hstart, hlength, hstop⟩ := first_bounds (o := o) hskip
      have hmem : t ∈ lexFrom (scan c r).2 (first s o c r).stop :=
        hmore.subst (List.mem_append_right before (List.mem_cons_self ..))
      have hbehind := (lexFrom_bounds hmem).1
      have hrest : (scan c r).2 = s.drop ((first s o c r).stop - o) := by
        have hsuffix := (scan_suffix c r).trans (List.suffix_cons c r)
        rw [← hskip] at hsuffix
        rw [List.suffix_iff_eq_drop.mp (hsuffix.trans (skipComments_suffix s))]
        congr 1
        omega
      have hread := ih hmore.symm
      rw [hrest, List.drop_drop] at hread
      rw [← hread]
      congr 2
      omega

/-- A run of tokens and what follows it in a text that may be cut between them. -/
structure Severed (ts after : List Token) : Prop where
  allowed : ∀ t ∈ ts, t.kind.forbidden = false
  unspaced : ∀ t ∈ ts.getLast?, t.isWhitespace = false
  /-- Behind a function that is the last token stands nothing that could be read into it. -/
  bare : ∀ t ∈ ts.getLast?, ∀ name, t.kind = .function name → ∀ u ∈ after, u.isWhitespace = true

/-- A token that begins where the text does. -/
theorem exists_of_lexFrom_cons (hslash : c ≠ '/') (h : lexFrom (c :: s) o = t :: ts) :
    t.kind = (scan c s).1 ∧ t.stop = o + 1 + s.length - (scan c s).2.length ∧
      ts = lexFrom (scan c s).2 t.stop := by
  rw [lexFrom_of_cons (skipComments_cons hslash)] at h
  obtain ⟨rfl, rfl⟩ := List.cons_eq_cons.mp h
  have htoken := (scan_suffix c s).length_le
  refine ⟨rfl, ?_, rfl⟩
  simp only [first, List.length_cons]
  omega

/-- A backslash in front of a line break escapes nothing: it is a token of its own. -/
theorem scan_backslash (hline : v.head? = some '\n') : scan '\\' v = (.delim '\\', v) := by
  have hescapes : escapes v = false := by
    simp [escapes, hline]
  simp [scan, isBlank, startsName, Text.isAscii, hescapes, scanSingle]

/-- A hyphen in front of such a backslash is a token of its own as well. -/
theorem scan_hyphen (hline : v.head? = some '\n') :
    scan '-' ('\\' :: v) = (.delim '-', '\\' :: v) := by
  have hescapes : escapes v = false := by
    simp [escapes, hline]
  have hname : atName ('-' :: '\\' :: v) = false := by
    simp [atName, startsName, Text.isAscii, hescapes]
  have hnumber : atNumber ('-' :: '\\' :: v) = false := by
    simp [atNumber, atNumber.atUnsigned]
  simp [scan, isBlank, scanHyphen, hname, hnumber]

/-- A backslash that escapes nothing is a token of its own, which no selector holds. -/
theorem forbidden_of_torn (h : lexFrom (y ++ v) o = ts ++ after) (htorn : Torn y v)
    (hlast : ∀ t ∈ ts.getLast?, t.stop = o + y.length) (hne : ts ≠ []) :
    ∃ t ∈ ts, t.kind.forbidden = true := by
  obtain ⟨hline, rfl | rfl⟩ := htorn
  · cases ts with
    | nil => exact absurd rfl hne
    | cons t ts =>
        have hlex : lexFrom ('\\' :: v) o = t :: (ts ++ after) := h
        obtain ⟨hkind, -, -⟩ := exists_of_lexFrom_cons (by decide) hlex
        rw [scan_backslash hline] at hkind
        exact ⟨t, List.mem_cons_self .., by rw [hkind]; rfl⟩
  · cases ts with
    | nil => exact absurd rfl hne
    | cons t ts =>
        have hlex : lexFrom ('-' :: '\\' :: v) o = t :: (ts ++ after) := h
        obtain ⟨-, hstop, hmore⟩ := exists_of_lexFrom_cons (by decide) hlex
        rw [scan_hyphen hline] at hstop hmore
        cases ts with
        | nil =>
            have hend := hlast t rfl
            simp only [List.length_cons, List.length_nil] at hstop hend
            omega
        | cons u ts =>
            obtain ⟨hkind, -, -⟩ := exists_of_lexFrom_cons (by decide) hmore.symm
            rw [scan_backslash hline] at hkind
            exact ⟨u, by simp, by rw [hkind]; rfl⟩

/-- What begins with a quote is read as a string, good or bad, and not as whitespace. -/
theorem scan_of_atQuote {q : Char} (hq : q = '"' ∨ q = '\'') (r : List Char) :
    (scan q r).1 ≠ .whitespace := by
  have hscan : scan q r = scanString q r := by
    rcases hq with rfl | rfl <;> rfl
  rw [hscan, scanString]
  split <;> exact TokenKind.noConfusion

/-- A text that begins with a quote begins with one of the two. -/
theorem head_of_atQuote (h : atQuote s = true) : ∃ q r, s = q :: r ∧ (q = '"' ∨ q = '\'') := by
  cases s with
  | nil => cases h
  | cons q r =>
      simp only [atQuote, List.head?_cons, Bool.or_eq_true, beq_iff_eq, Option.some.injEq] at h
      exact ⟨q, r, rfl, h⟩

/-- A quote begins no whitespace. -/
theorem exists_of_atQuote (h : atQuote s = true) : ∃ t ∈ lexFrom s o, t.isWhitespace = false := by
  obtain ⟨q, r, rfl, hq⟩ := head_of_atQuote h
  have hslash : q ≠ '/' := by
    rcases hq with rfl | rfl <;> decide
  rw [lexFrom_of_cons (skipComments_cons hslash)]
  refine ⟨_, List.mem_cons_self .., ?_⟩
  rw [isWhitespace, first, beq_eq_false_iff_ne]
  exact scan_of_atQuote hq r

/-- Blanks in front of a quote are one token. -/
theorem lexFrom_cons_of_blank {b : Char} (hb : isBlank b = true) (hs : atQuote s = true) :
    ∃ t, lexFrom (b :: s) o = t :: lexFrom s t.stop ∧ t.isWhitespace = true ∧ t.stop = o + 1 := by
  have hscan : scan b s = (.whitespace, s) := by
    obtain ⟨q, r, rfl, hq⟩ := head_of_atQuote hs
    have hblank : ¬isBlank q = true := by
      rcases hq with rfl | rfl <;> decide
    rw [scan, if_pos hb, List.dropWhile_cons_of_neg hblank]
  have hslash : b ≠ '/' := by
    rintro rfl
    cases hb
  rw [lexFrom_of_cons (skipComments_cons hslash), hscan]
  refine ⟨_, rfl, ?_, ?_⟩
  · simp only [isWhitespace, first, hscan]
    rfl
  · simp only [first, hscan, List.length_cons]
    omega

/-- The last token of a part ends behind the beginning of the part. -/
theorem stop_of_getLast? (h : lexFrom s o = ts ++ after) (hlast : ts.getLast? = some t) :
    o < t.stop := by
  have hmem : t ∈ lexFrom s o := by
    rw [h]
    exact List.mem_append_left after (List.mem_of_getLast? hlast)
  have := lexFrom_bounds hmem
  omega

/-- The quote that follows a function is not cut off, if the function is not the last token of the
part or nothing but whitespace follows it. -/
theorem not_atQuote_of_lexFrom (h : lexFrom (y ++ v) o = ts ++ after)
    (hlast : ∀ t ∈ ts.getLast?, t.isWhitespace = false ∧ t.stop = o + y.length)
    (hnil : ts = [] → y = [] ∧ ∀ u ∈ after, u.isWhitespace = true) (hy : dropBlank y = []) :
    atQuote (dropBlank (y ++ v)) = false := by
  rw [Bool.eq_false_iff]
  intro hquote
  match y, hy with
  | [], _ =>
      cases ts with
      | cons t ts =>
          have hbefore := stop_of_getLast? h List.getLast?_cons
          have hend := (hlast _ List.getLast?_cons).2
          rw [List.length_nil] at hend
          omega
      | nil =>
          rw [List.nil_append] at h hquote
          rw [List.nil_append] at h
          have hspace := (hnil rfl).2
          rw [← h] at hspace
          cases v with
          | nil => cases hquote
          | cons b v =>
              rw [dropBlank] at hquote
              split at hquote
              · rename_i hb
                obtain ⟨t, hlex, -, -⟩ := lexFrom_cons_of_blank (o := o) hb hquote
                obtain ⟨u, hu, hnot⟩ := exists_of_atQuote (o := t.stop) hquote
                have := hspace u (by rw [hlex]; exact List.mem_cons_of_mem t hu)
                rw [hnot] at this
                cases this
              · obtain ⟨u, hu, hnot⟩ := exists_of_atQuote (o := o) hquote
                have := hspace u hu
                rw [hnot] at this
                cases this
  | b :: y, hy =>
      rw [dropBlank] at hy
      split at hy
      · rename_i hb
        subst hy
        rw [List.singleton_append, dropBlank, if_pos hb] at hquote
        obtain ⟨t, hlex, hspace, hstop⟩ := lexFrom_cons_of_blank (o := o) hb hquote
        rw [List.singleton_append, hlex] at h
        cases ts with
        | nil => cases (hnil rfl).1
        | cons u ts =>
            obtain ⟨rfl, hmore⟩ := List.cons_eq_cons.mp h
            cases ts with
            | nil =>
                have hend := (hlast t rfl).1
                rw [hspace] at hend
                cases hend
            | cons u ts =>
                have hbefore := stop_of_getLast? hmore List.getLast?_cons
                have hend := (hlast _ (List.getLast?_cons_cons.trans List.getLast?_cons)).2
                rw [List.length_singleton] at hend
                omega
      · cases hy

/-- What is severed from a run is severed from its tail. -/
theorem Severed.tail (h : Severed (t :: ts) after) : Severed ts after where
  allowed u hu := h.allowed u (List.mem_cons_of_mem t hu)
  unspaced u hu := h.unspaced u (List.mem_getLast?_cons hu)
  bare u hu := h.bare u (List.mem_getLast?_cons hu)

/-- **Cutting behind a token** leaves it and those in front of it. -/
theorem lexFrom_cut (h : lexFrom (s ++ v) o = ts ++ after) (hcut : Severed ts after)
    (hlast : ∀ t ∈ ts.getLast?, t.stop = o + s.length) (hne : ts ≠ []) : lexFrom s o = ts := by
  induction ts generalizing s o with
  | nil => exact absurd rfl hne
  | cons t ts ih =>
      obtain ⟨c, r, hskip, rfl, hmore⟩ := exists_of_lexFrom h
      obtain ⟨hstart, hlength, hstop⟩ := first_bounds (o := o) hskip
      have hmore' : lexFrom (scan c r).2 (first (s ++ v) o c r).stop = ts ++ after := hmore.symm
      have hbefore : (first (s ++ v) o c r).stop ≤ o + s.length := by
        cases ts with
        | nil => exact Nat.le_of_eq (hlast _ rfl)
        | cons u ts =>
            have hend := hlast _ (List.getLast?_cons_cons.trans List.getLast?_cons)
            have := stop_of_getLast? hmore' List.getLast?_cons
            omega
      rw [List.length_append] at hstop
      have hcomments : c :: r <:+ s ++ v := hskip ▸ skipComments_suffix (s ++ v)
      have hr : r <:+ s ++ v := (List.suffix_cons c r).trans hcomments
      have htoken := scan_suffix c r
      obtain ⟨y, hy⟩ := ends_of_suffix (htoken.trans hr) (by omega)
      obtain ⟨z, rfl⟩ := ends_of_suffix hr (by have := htoken.length_le; omega)
      have hskip' : skipComments s = c :: z := skipComments_cut hskip
      have hrest : (first (s ++ v) o c (z ++ v)).stop + y.length = o + s.length := by
        rw [hy, List.length_append] at hstop
        omega
      have hlast' : ∀ t ∈ ts.getLast?, t.stop = (first (s ++ v) o c (z ++ v)).stop + y.length :=
        fun t ht => (hlast t (List.mem_getLast?_cons ht)).trans hrest.symm
      have hnil : ts = [] → y = [] := by
        rintro rfl
        have hend : (first (s ++ v) o c (z ++ v)).stop = o + s.length := hlast _ rfl
        exact List.eq_nil_of_length_eq_zero (by omega)
      rw [hy] at hmore'
      have hclean : CleanCut (scan c (z ++ v)).1 y v := by
        refine
          ⟨hcut.allowed _ (List.mem_cons_self ..), fun htorn => ?_, fun name hname hblank => ?_⟩
        · have hne : ts ≠ [] := by
            intro hts
            rcases htorn with ⟨-, hy' | hy'⟩ <;> (rw [hnil hts] at hy'; cases hy')
          obtain ⟨u, hu, hbad⟩ := forbidden_of_torn hmore' htorn hlast' hne
          rw [hcut.allowed u (List.mem_cons_of_mem _ hu)] at hbad
          cases hbad
        · refine not_atQuote_of_lexFrom hmore' (fun u hu => ⟨?_, hlast' u hu⟩)
            (fun hts => ?_) hblank
          · exact hcut.unspaced u (List.mem_getLast?_cons hu)
          · subst hts
            exact ⟨hnil rfl, hcut.bare _ rfl name hname⟩
      have hscan : scan c z = ((scan c (z ++ v)).1, y) := scan_cut hclean (Prod.ext rfl hy)
      have hfirst : first s o c z = first (s ++ v) o c (z ++ v) := by
        have := hcomments.length_le
        simp only [first, hscan, hy, List.length_append, List.length_cons, Token.mk.injEq,
          true_and] at this ⊢
        omega
      rw [lexFrom_of_cons hskip', hfirst, hscan]
      congr 1
      cases ts with
      | nil =>
          rw [hnil rfl]
          exact lexFrom_nil
      | cons u ts => exact ih hmore' hcut.tail hlast' (List.cons_ne_nil u ts)

end Token

end Selectors

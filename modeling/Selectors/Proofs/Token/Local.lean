import Mathlib.Data.Nat.Init
import Selectors.Token.Balance

/-!
# What a reader of tokens looks at

A reader takes characters from the front of a text and leaves the rest.  If a part `v` at the end of
the text is among what it leaves, then it has read the same without `v`: most readers look beyond
what they take only to see whether they could take more.  Two look ahead without taking.  A
backslash escapes nothing before a line end, and the address in `url(` is no function's argument
unless a quote follows.  Cutting a text there would change what is read in front of the cut.

* `Token.Local` is the property without exception.  It is kept by one reader after another
  (`Token.Local.bind`).
* `Token.Torn` is the exception with the backslash; `Token.takeName_cut` is about names.
* `Token.takeString_cut` and `Token.takeUrl_cut` are about strings and addresses that are not
  spoilt.
-/

namespace Selectors

namespace Token

/-- What a reader leaves is a suffix of the text, and where that suffix ends with `v` the reader has
not seen `v`. -/
structure Local {α : Type} (read : List Char → α × List Char) : Prop where
  suffix : ∀ s, (read s).2 <:+ s
  cut : ∀ {z y v : List Char} {a : α}, read (z ++ v) = (a, y ++ v) → read z = (a, y)

variable {α β : Type} {s x y z v : List Char} {c : Char}

/-- A suffix that is no shorter than the end of the text has that end. -/
theorem ends_of_suffix (h : s <:+ z ++ v) (hlength : v.length ≤ s.length) :
    ∃ y, s = y ++ v := by
  obtain ⟨y, hy⟩ := List.suffix_of_suffix_length_le (List.suffix_append z v) h hlength
  exact ⟨y, hy.symm⟩

/-- What stands before the end of a text is no longer than the whole. -/
theorem length_le_of_suffix_append (h : y ++ v <:+ s) : v.length ≤ s.length := by
  have := h.length_le
  rw [List.length_append] at this
  omega

theorem eq_nil_of_suffix (h : y ++ v <:+ v) : y = [] := by
  have := h.length_le
  rw [List.length_append] at this
  exact List.eq_nil_of_length_eq_zero (by omega)

namespace Local

/-- One reader after another looks no further than the two do. -/
theorem bind {first : List Char → α × List Char} {next : α → List Char → β × List Char}
    (hfirst : Local first) (hnext : ∀ a, Local (next a)) :
    Local fun s => next (first s).1 (first s).2 where
  suffix s := ((hnext _).suffix _).trans (hfirst.suffix s)
  cut {z y v b} h := by
    have hleft := (hnext (first (z ++ v)).1).suffix (first (z ++ v)).2
    rw [h] at hleft
    obtain ⟨w, hw⟩ := ends_of_suffix (hfirst.suffix (z ++ v)) (length_le_of_suffix_append hleft)
    have hread : first z = ((first (z ++ v)).1, w) := hfirst.cut (Prod.ext rfl hw)
    rw [hw] at h
    simp only [hread]
    exact (hnext _).cut h

theorem map {read : List Char → α × List Char} (h : Local read) (f : α → β) :
    Local fun s => (f (read s).1, (read s).2) where
  suffix := h.suffix
  cut {z y v b} heq := by
    obtain ⟨ha, hrest⟩ := Prod.ext_iff.mp heq
    have hread : read z = ((read (z ++ v)).1, y) := h.cut (Prod.ext rfl hrest)
    simp only [hread]
    exact Prod.ext ha rfl

/-- A reader without a result. -/
theorem skip {skip : List Char → List Char} (h : Local fun s => ((), skip s))
    (heq : skip (z ++ v) = y ++ v) : skip z = y :=
  (Prod.ext_iff.mp (h.cut (Prod.ext rfl heq))).2

end Local

/-! ### Runs of characters -/

/-- The longest run of characters with a property. -/
theorem local_span (p : Char → Bool) : Local fun s => (s.takeWhile p, s.dropWhile p) where
  suffix s := List.dropWhile_suffix p
  cut {z y v a} h := by
    obtain ⟨rfl, hrest⟩ := Prod.ext_iff.mp h
    simp only at hrest
    clear h
    induction z with
    | nil =>
        have hnil : y = [] := eq_nil_of_suffix (hrest ▸ List.dropWhile_suffix p)
        have hall := List.takeWhile_append_dropWhile (p := p) (l := v)
        rw [List.nil_append, hnil] at hrest
        rw [hrest, List.nil_append, List.append_left_eq_self] at hall
        rw [hnil, List.nil_append, hall]
        rfl
    | cons c z ih =>
        by_cases hc : p c
        · rw [List.cons_append, List.dropWhile_cons_of_pos hc] at hrest
          have := ih hrest
          obtain ⟨htaken, hleft⟩ := Prod.ext_iff.mp this
          rw [List.cons_append, List.takeWhile_cons_of_pos hc, List.takeWhile_cons_of_pos hc,
            List.dropWhile_cons_of_pos hc]
          exact Prod.ext (congrArg (c :: ·) htaken) hleft
        · rw [List.dropWhile_cons_of_neg hc]
          rw [List.cons_append, List.dropWhile_cons_of_neg hc, ← List.cons_append] at hrest
          rw [List.cons_append, List.takeWhile_cons_of_neg hc, List.takeWhile_cons_of_neg hc,
            List.append_cancel_right hrest]

/-- A run of characters that ends in front of the cut is the same without what follows. -/
theorem dropWhile_cut {p : Char → Bool} (h : (z ++ v).dropWhile p = y ++ v) :
    z.dropWhile p = y :=
  (Prod.ext_iff.mp ((local_span p).cut (Prod.ext rfl h))).2

/-- The longest run of at most `n` characters with a property. -/
theorem local_spanUpTo (p : Char → Bool) (n : Nat) :
    Local fun s => ((s.take n).takeWhile p, s.drop ((s.take n).takeWhile p).length) where
  suffix s := List.drop_suffix _ _
  cut {z y v a} h := by
    obtain ⟨rfl, hrest⟩ := Prod.ext_iff.mp h
    simp only at hrest
    clear h
    induction n generalizing z with
    | zero => simpa using hrest
    | succ n ih =>
        cases z with
        | nil =>
            have hnil : y = [] := eq_nil_of_suffix (hrest ▸ List.drop_suffix _ _)
            have hlength := congrArg List.length hrest
            have hle := (List.takeWhile_sublist (l := v.take (n + 1)) p).length_le
            rw [hnil] at hlength ⊢
            simp only [List.nil_append, List.length_drop, List.length_take] at hlength hle ⊢
            have htaken : ((v.take (n + 1)).takeWhile p).length = 0 := by
              omega
            rw [List.eq_nil_of_length_eq_zero htaken]
            rfl
        | cons c z =>
            by_cases hc : p c
            · simp only [List.cons_append, List.take_succ_cons, List.takeWhile_cons_of_pos hc,
                List.length_cons, List.drop_succ_cons] at hrest ⊢
              obtain ⟨htaken, hleft⟩ := Prod.ext_iff.mp (ih hrest)
              exact Prod.ext (congrArg (c :: ·) htaken) hleft
            · simp only [List.cons_append, List.take_succ_cons, List.takeWhile_cons_of_neg hc,
                List.length_nil, List.drop_zero] at hrest ⊢
              rw [← List.cons_append] at hrest
              rw [List.append_cancel_right hrest]

/-- Whitespace is read locally. -/
theorem local_dropBlank : Local fun s => ((), dropBlank s) where
  suffix := dropBlank_suffix
  cut {z y v a} h := by
    have hrest := (Prod.ext_iff.mp h).2
    simp only at hrest
    cases z with
    | nil =>
        have hnil : y = [] := eq_nil_of_suffix (hrest ▸ dropBlank_suffix v)
        rw [hnil]
        rfl
    | cons c z =>
        simp only [List.cons_append, dropBlank] at hrest ⊢
        split at hrest
        · rename_i hc
          rw [if_pos hc, List.append_cancel_right hrest]
        · rename_i hc
          rw [← List.cons_append] at hrest
          rw [if_neg hc, List.append_cancel_right hrest]

/-! ### Escapes and names -/

/-- An escape takes a character at least. -/
theorem takeEscape_cons_suffix (c : Char) (r : List Char) : (takeEscape (c :: r)).2 <:+ r := by
  simp only [takeEscape]
  split
  · exact (dropBlank_suffix _).trans (List.drop_suffix _ _)
  · exact List.suffix_rfl

/-- An escape is read locally, one hexadecimal digit after another. -/
theorem local_takeEscape : Local takeEscape where
  suffix := takeEscape_suffix
  cut {z y v a} h := by
    cases z with
    | nil =>
        cases v with
        | nil => simpa using h
        | cons d v =>
            have hleft := takeEscape_cons_suffix d v
            rw [← List.nil_append (d :: v), h] at hleft
            exact absurd (length_le_of_suffix_append hleft) (Nat.not_succ_le_self _)
    | cons c z =>
        simp only [List.cons_append, takeEscape] at h ⊢
        split at h
        · rename_i hc
          rw [if_pos hc]
          exact ((local_spanUpTo isHexDigit 5).bind
            fun more => local_dropBlank.map fun _ => charOfHex (c :: more)).cut h
        · rename_i hc
          obtain ⟨rfl, hrest⟩ := Prod.ext_iff.mp h
          rw [if_neg hc, List.append_cancel_right hrest]

/-- A cut behind a backslash that escapes nothing, because a line ends there.  Without the line end
it would begin an escape. -/
def Torn (y v : List Char) : Prop :=
  v.head? = some '\n' ∧ (y = ['\\'] ∨ y = ['-', '\\'])

/-- A backslash that escapes something escapes it in a longer text, unless the text went on with a
line break. -/
theorem escapes_append (h : escapes s = true) (hs : s = [] → v.head? ≠ some '\n') :
    escapes (s ++ v) = true := by
  cases s with
  | nil => simpa [escapes] using hs rfl
  | cons c s => exact h

/-- A backslash that escapes the character behind it escapes it, or the end, before a cut too. -/
theorem escapes_of_append (h : escapes (s ++ v) = true) : escapes s = true := by
  cases s with
  | nil => rfl
  | cons c s => exact h

/-- A character of a name in front of the cut is read as before. -/
theorem nameChar?_cut (h : nameChar? (z ++ v) = some (c, y ++ v)) :
    nameChar? z = some (c, y) := by
  cases z with
  | nil =>
      have hshorter := nameChar?_length h
      rw [List.nil_append, List.length_append] at hshorter
      omega
  | cons d z =>
      simp only [List.cons_append, nameChar?] at h ⊢
      split at h
      · rename_i hd
        obtain ⟨rfl, hrest⟩ := Prod.ext_iff.mp (Option.some.inj h)
        rw [if_pos hd, List.append_cancel_right hrest]
      · rename_i hd
        split at h
        · rename_i hescape
          obtain ⟨hslash, hescapes⟩ := Bool.and_eq_true_iff.mp hescape
          rw [if_neg hd, hslash, escapes_of_append hescapes, Bool.and_self, if_pos rfl,
            local_takeEscape.cut (Option.some.inj h)]
        · cases h

/-- Where no name goes on, none does before a cut, unless that sets a backslash free. -/
theorem nameChar?_eq_none_of_append (h : nameChar? (z ++ v) = none) (htorn : ¬Torn z v) :
    nameChar? z = none := by
  cases z with
  | nil => rfl
  | cons d z =>
      simp only [List.cons_append, nameChar?] at h ⊢
      split at h
      · cases h
      · rename_i hd
        split at h
        · cases h
        · rename_i hnone
          rw [if_neg hd, if_neg]
          intro hescape
          obtain ⟨hslash, hescapes⟩ := Bool.and_eq_true_iff.mp hescape
          refine hnone (Bool.and_eq_true_iff.mpr ⟨hslash, escapes_append hescapes ?_⟩)
          rintro rfl hline
          exact htorn ⟨hline, Or.inl (by rw [beq_iff_eq.mp hslash])⟩

theorem takeName_of_none (h : nameChar? s = none) : takeName s = ([], s) := by
  rw [takeName]
  split
  · rfl
  · rename_i hsome
    rw [h] at hsome
    cases hsome

theorem takeName_of_some (h : nameChar? s = some (c, x)) :
    takeName s = (c :: (takeName x).1, (takeName x).2) := by
  rw [takeName]
  split
  · rename_i hnone
    rw [h] at hnone
    cases hnone
  · rename_i hsome
    rw [h] at hsome
    cases hsome
    rfl

/-- **Names are read locally**, unless a backslash at their end is torn from what it escapes. -/
theorem takeName_cut {name : List Char} (htorn : ¬Torn y v)
    (h : takeName (z ++ v) = (name, y ++ v)) : takeName z = (name, y) := by
  induction hsize : z.length using Nat.strong_induction_on generalizing z name with
  | _ size ih =>
      cases hchar : nameChar? (z ++ v) with
      | none =>
          rw [takeName_of_none hchar] at h
          obtain ⟨rfl, hrest⟩ := Prod.ext_iff.mp h
          have hsame := List.append_cancel_right hrest
          subst hsame
          exact takeName_of_none (nameChar?_eq_none_of_append hchar htorn)
      | some x =>
          obtain ⟨c, r⟩ := x
          rw [takeName_of_some hchar] at h
          obtain ⟨rfl, hrest⟩ := Prod.ext_iff.mp h
          have hleft := takeName_suffix r
          rw [hrest] at hleft
          obtain ⟨w, rfl⟩ : ∃ w, r = w ++ v := by
            refine ends_of_suffix (z := z) ?_ (length_le_of_suffix_append hleft)
            cases hz : z ++ v with
            | nil =>
                rw [hz] at hchar
                cases hchar
            | cons d r =>
                rw [hz] at hchar
                exact (nameChar?_suffix hchar).trans (List.suffix_cons d r)
          have hread := nameChar?_cut hchar
          have hshorter : w.length < size := hsize ▸ nameChar?_length hread
          rw [takeName_of_some hread, ih _ hshorter (Prod.ext rfl hrest) rfl]

/-- A name still begins in a longer text, if nothing is torn. -/
theorem atName_append (h : atName z = true) (htorn : ¬Torn z v) : atName (z ++ v) = true := by
  unfold atName at h ⊢
  split at h
  · rename_i r
    split at h
    · cases h
    · rename_i c t
      simp only [List.cons_append]
      simp only [Bool.or_eq_true, Bool.and_eq_true] at h ⊢
      refine h.imp id fun hescape => ⟨hescape.1, escapes_append hescape.2 ?_⟩
      rintro rfl hline
      exact htorn ⟨hline, Or.inr (by rw [beq_iff_eq.mp hescape.1])⟩
  · rename_i r
    simp only [List.cons_append]
    refine escapes_append h ?_
    rintro rfl hline
    exact htorn ⟨hline, Or.inl rfl⟩
  · rename_i c r hhyphen hslash
    simp only [List.cons_append]
    exact h
  · cases h

/-- Where no hyphen and no backslash stands, a name begins with its first character. -/
theorem atName_cons_of_ne (hhyphen : c ≠ '-') (hslash : c ≠ '\\') :
    atName (c :: s) = startsName c := by
  unfold atName
  split
  · rename_i heq
    exact absurd (List.cons_eq_cons.mp heq).1 hhyphen
  · rename_i heq
    exact absurd (List.cons_eq_cons.mp heq).1 hslash
  · rename_i heq
    rw [(List.cons_eq_cons.mp heq).1]
  · rename_i heq
    cases heq

/-- A name that begins has a first character. -/
theorem nameChar?_isSome_of_atName (h : atName s = true) : (nameChar? s).isSome = true := by
  unfold atName at h
  split at h
  · simp [nameChar?, continuesName]
  · simp only [nameChar?, beq_self_eq_true, h, Bool.and_self, if_true]
    split <;> rfl
  · exact nameChar?_isSome_of_startsName _ h
  · cases h

/-- Behind the hyphen at which a name begins the name goes on. -/
theorem nameChar?_isSome_of_hyphen (h : atName ('-' :: s) = true) :
    (nameChar? s).isSome = true := by
  cases s with
  | nil => cases h
  | cons d s =>
      by_cases hd : d = '-'
      · rw [hd]
        simp [nameChar?, continuesName]
      · have hd' : (d == '-') = false := beq_eq_false_iff_ne.mpr hd
        simp only [atName, hd', Bool.or_false, Bool.or_eq_true, Bool.and_eq_true] at h
        rcases h with hstarts | ⟨hslash, hescapes⟩
        · exact nameChar?_isSome_of_startsName s hstarts
        · rw [beq_iff_eq.mp hslash]
          exact nameChar?_isSome_of_atName hescapes

/-- A name that has a first character takes it. -/
theorem takeName_length (h : (nameChar? s).isSome = true) : (takeName s).2.length < s.length := by
  cases s with
  | nil => cases h
  | cons c r => exact Nat.lt_succ_of_le (takeName_cons_suffix h).length_le

/-- What follows the cut does not make a name begin before it, if the name ends before it.  A hyphen
alone would take what follows the cut into the name. -/
theorem atName_of_append {name : List Char} (h : atName (z ++ v) = true)
    (hname : takeName (z ++ v) = (name, y ++ v)) : atName z = true := by
  cases z with
  | nil =>
      have hshorter := takeName_length (nameChar?_isSome_of_atName h)
      rw [hname, List.length_append] at hshorter
      exact absurd hshorter (by simp)
  | cons c z =>
      by_cases hhyphen : c = '-'
      · subst hhyphen
        cases z with
        | nil =>
            have hshorter : (takeName v).2.length < v.length :=
              takeName_length (nameChar?_isSome_of_hyphen h)
            have hfirst : takeName ('-' :: v) = ('-' :: (takeName v).1, (takeName v).2) :=
              takeName_of_some (by simp [nameChar?, continuesName])
            rw [List.singleton_append, hfirst] at hname
            rw [(Prod.ext_iff.mp hname).2, List.length_append] at hshorter
            omega
        | cons d z =>
            simp only [atName, List.cons_append, Bool.or_eq_true, Bool.and_eq_true] at h ⊢
            exact h.imp id fun hescape => ⟨hescape.1, escapes_of_append hescape.2⟩
      · by_cases hslash : c = '\\'
        · subst hslash
          exact escapes_of_append h
        · rw [List.cons_append, atName_cons_of_ne hhyphen hslash] at h
          rw [atName_cons_of_ne hhyphen hslash]
          exact h

/-! ### Comments and strings -/

/-- The end of a comment is found locally. -/
theorem local_afterComment : Local fun s => ((), afterComment s) where
  suffix := afterComment_suffix
  cut {z y v a} h := by
    have hrest := (Prod.ext_iff.mp h).2
    simp only at hrest
    refine Prod.ext rfl ?_
    simp only
    clear h
    induction z with
    | nil =>
        have hnil : y = [] := eq_nil_of_suffix (hrest ▸ afterComment_suffix v)
        rw [hnil]
        rfl
    | cons c z ih =>
        cases z with
        | nil =>
            rw [List.singleton_append] at hrest
            by_cases hend : ∃ r, c = '*' ∧ v = '/' :: r
            · obtain ⟨r, rfl, rfl⟩ := hend
              rw [afterComment] at hrest
              have hlength := congrArg List.length hrest
              simp only [List.length_append, List.length_cons] at hlength
              omega
            · rw [afterComment.eq_3 c v fun r hc hr => hend ⟨r, hc, hr⟩] at hrest
              have hnil : y = [] := eq_nil_of_suffix (hrest ▸ afterComment_suffix v)
              rw [hnil]
              simp [afterComment]
        | cons d z =>
            by_cases hend : c = '*' ∧ d = '/'
            · obtain ⟨rfl, rfl⟩ := hend
              simp only [List.cons_append, afterComment] at hrest ⊢
              exact List.append_cancel_right hrest
            · have hstep : ∀ r, afterComment (c :: d :: r) = afterComment (d :: r) := fun r =>
                afterComment.eq_3 c (d :: r) fun _ hc hr => hend ⟨hc, (List.cons_eq_cons.mp hr).1⟩
              rw [List.cons_append, List.cons_append, hstep] at hrest
              rw [hstep]
              exact ih hrest

/-- Comments are skipped locally.  A comment begins in front of the cut, because what follows the
cut is left over. -/
theorem skipComments_cut (h : skipComments (z ++ v) = y ++ v) : skipComments z = y := by
  induction hsize : z.length using Nat.strong_induction_on generalizing z with
  | _ size ih =>
      by_cases hopen : ∃ r, z ++ v = '/' :: '*' :: r
      · obtain ⟨r, hr⟩ := hopen
        rw [hr, skipComments] at h
        have hleft : y ++ v <:+ r := h ▸ (skipComments_suffix _).trans (afterComment_suffix r)
        have hfits := length_le_of_suffix_append hleft
        cases z with
        | nil =>
            rw [List.nil_append] at hr
            rw [hr, List.length_cons, List.length_cons] at hfits
            omega
        | cons c z =>
            cases z with
            | nil =>
                have hv : v = '*' :: r := (List.cons_eq_cons.mp hr).2
                rw [hv] at hfits
                exact absurd hfits (Nat.not_succ_le_self _)
            | cons d z =>
                simp only [List.cons_append, List.cons_eq_cons] at hr
                obtain ⟨rfl, rfl, rfl⟩ := hr
                obtain ⟨w, hw⟩ := ends_of_suffix (afterComment_suffix (z ++ v))
                  (length_le_of_suffix_append (h ▸ skipComments_suffix _))
                have hcut : afterComment z = w := local_afterComment.skip hw
                rw [skipComments, hcut]
                have hshorter : w.length < size := by
                  have := (afterComment_suffix z).length_le
                  rw [hcut] at this
                  simp only [List.length_cons] at hsize
                  omega
                rw [hw] at h
                exact ih _ hshorter h rfl
      · rw [skipComments.eq_2 _ fun r hr => hopen ⟨r, hr⟩] at h
        rw [← List.append_cancel_right h]
        refine skipComments.eq_2 _ fun r hr => hopen ⟨r ++ v, ?_⟩
        rw [hr]
        rfl

/-- How a string goes on behind a backslash: a line end is left out, anything else is escaped. -/
theorem takeString_backslash {quote d : Char} (hquote : ¬('\\' == quote) = true) :
    takeString quote ('\\' :: d :: s) =
      if d = '\n' then takeString quote s
      else
        ((takeString quote (takeEscape (d :: s)).2).1.map ((takeEscape (d :: s)).1 :: ·),
          (takeString quote (takeEscape (d :: s)).2).2) := by
  rw [takeString.eq_def]
  simp only
  rw [if_neg hquote, if_neg (by decide), if_pos (by decide)]
  split
  · rename_i heq
    cases heq
  · rename_i heq
    cases heq
    rw [if_pos rfl]
  · rename_i hline heq
    cases heq
    rw [if_neg hline]

/-- A closed string that takes a character leaves a part of the rest. -/
theorem takeString_cons_suffix {quote : Char} {value rest : List Char}
    (h : takeString quote (c :: s) = (some value, rest)) : rest <:+ s := by
  by_cases hquote : c == quote
  · rw [takeString.eq_def] at h
    simp only [hquote, if_true] at h
    cases h
    exact List.suffix_rfl
  by_cases hline : c == '\n'
  · rw [takeString.eq_def] at h
    simp [hquote, hline] at h
  by_cases hslash : c = '\\'
  · subst hslash
    cases s with
    | nil =>
        rw [takeString.eq_def] at h
        simp only [hquote, hline] at h
        cases h
        exact List.suffix_rfl
    | cons d t =>
        rw [takeString_backslash hquote] at h
        split at h
        · obtain ⟨-, rfl⟩ := Prod.ext_iff.mp h
          exact (takeString_suffix quote t).trans (List.suffix_cons _ _)
        · obtain ⟨-, rfl⟩ := Prod.ext_iff.mp h
          exact (takeString_suffix quote _).trans (takeEscape_suffix _)
  · rw [takeString.eq_def] at h
    simp only [hquote, hline, beq_eq_false_iff_ne.mpr hslash] at h
    obtain ⟨-, rfl⟩ := Prod.ext_iff.mp h
    exact takeString_suffix quote s

/-- What is read behind a character, where all of it ends before a cut. -/
theorem map_cut {read : List Char → Option (List Char) × List Char} {value : List Char}
    (h : ((read s).1.map (c :: ·), (read s).2) = (some value, x)) :
    ∃ more, read s = (some more, x) ∧ value = c :: more := by
  obtain ⟨hvalue, rfl⟩ := Prod.ext_iff.mp h
  obtain ⟨more, hmore, rfl⟩ := Option.map_eq_some_iff.mp hvalue
  exact ⟨more, Prod.ext hmore rfl, rfl⟩

/-- An escape, and what is read behind it, where all of it ends before a cut. -/
theorem escaped_cut {read : List Char → Option (List Char) × List Char} {value : List Char}
    (hsuffix : ∀ s, (read s).2 <:+ s)
    (h : ((read (takeEscape (z ++ v)).2).1.map ((takeEscape (z ++ v)).1 :: ·),
      (read (takeEscape (z ++ v)).2).2) = (some value, y ++ v)) :
    ∃ d w more, takeEscape z = (d, w) ∧ read (w ++ v) = (some more, y ++ v) ∧
      value = d :: more := by
  obtain ⟨more, hread, rfl⟩ := map_cut h
  have hleft := hsuffix (takeEscape (z ++ v)).2
  rw [hread] at hleft
  obtain ⟨w, hw⟩ := ends_of_suffix (takeEscape_suffix (z ++ v)) (length_le_of_suffix_append hleft)
  rw [hw] at hread
  exact ⟨_, w, more, local_takeEscape.cut (Prod.ext rfl hw), hread, rfl⟩

/-- A string that ends before a cut is read without what follows it.  A backslash at the cut would
take the character behind it, and then the string would not end there. -/
theorem takeString_cut {quote : Char} {value : List Char}
    (h : takeString quote (z ++ v) = (some value, y ++ v)) :
    takeString quote z = (some value, y) := by
  induction hsize : z.length using Nat.strong_induction_on generalizing z value with
  | _ size ih =>
      cases z with
      | nil =>
          cases v with
          | nil => simpa using h
          | cons d v =>
              exact absurd (length_le_of_suffix_append (takeString_cons_suffix h))
                (Nat.not_succ_le_self _)
      | cons c z =>
          have hshorter : ∀ w : List Char, w <:+ z → w.length < size := fun w hw =>
            hsize ▸ Nat.lt_succ_of_le hw.length_le
          rw [List.cons_append] at h
          by_cases hquote : c == quote
          · rw [takeString.eq_def] at h ⊢
            simp only [hquote, if_true] at h ⊢
            obtain ⟨hvalue, hrest⟩ := Prod.ext_iff.mp h
            exact Prod.ext hvalue (List.append_cancel_right hrest)
          by_cases hline : c == '\n'
          · rw [takeString.eq_def] at h
            simp [hquote, hline] at h
          by_cases hslash : c = '\\'
          · subst hslash
            cases z with
            | nil =>
                cases v with
                | nil => simpa using h
                | cons d v =>
                    rw [List.nil_append, takeString_backslash hquote] at h
                    have hleft : y ++ d :: v <:+ v := by
                      split at h
                      · have hrest : (takeString quote v).2 = y ++ d :: v := congrArg Prod.snd h
                        exact hrest ▸ takeString_suffix quote v
                      · have hrest : (takeString quote (takeEscape (d :: v)).2).2 = y ++ d :: v :=
                          congrArg Prod.snd h
                        exact hrest ▸
                          (takeString_suffix quote _).trans (takeEscape_cons_suffix d v)
                    exact absurd (length_le_of_suffix_append hleft) (Nat.not_succ_le_self _)
            | cons d z =>
                rw [List.cons_append, takeString_backslash hquote] at h
                rw [takeString_backslash hquote]
                by_cases hd : d = '\n'
                · rw [if_pos hd] at h ⊢
                  exact ih _ (hshorter z (List.suffix_cons _ _)) h rfl
                · rw [if_neg hd, ← List.cons_append] at h
                  obtain ⟨e, w, more, hescape, hmore, rfl⟩ :=
                    escaped_cut (takeString_suffix quote) h
                  have hw : w <:+ d :: z := by
                    have := takeEscape_suffix (d :: z)
                    rwa [hescape] at this
                  rw [if_neg hd, hescape, ih _ (hshorter w hw) hmore rfl]
                  rfl
          · rw [takeString.eq_def] at h ⊢
            simp only [hquote, hline, beq_eq_false_iff_ne.mpr hslash] at h ⊢
            obtain ⟨more, hmore, rfl⟩ := map_cut h
            have hread := ih _ (hshorter z List.suffix_rfl) hmore rfl
            simp only [hread]
            rfl

/-! ### Addresses -/

/-- The parenthesis at the end of an address is found locally. -/
theorem closeUrl_cut (h : closeUrl (z ++ v) = (true, y ++ v)) : closeUrl z = (true, y) := by
  unfold closeUrl at h
  split at h
  · rename_i hblank
    obtain ⟨-, hrest⟩ := Prod.ext_iff.mp h
    obtain ⟨rfl, rfl⟩ := List.append_eq_nil_iff.mp hrest.symm
    rw [List.append_nil] at hblank
    rw [closeUrl, hblank]
  · rename_i r hblank
    obtain ⟨-, rfl⟩ := Prod.ext_iff.mp h
    rw [← List.cons_append] at hblank
    rw [closeUrl, dropWhile_cut hblank]
    rfl
  · cases h

/-- An address takes a character at least. -/
theorem takeUrl_cons_suffix (c : Char) (r : List Char) : (takeUrl (c :: r)).2 <:+ r := by
  rw [takeUrl.eq_def]
  simp only
  split
  · exact List.suffix_rfl
  split
  · exact closeUrl_suffix r
  split
  · exact afterBadUrl_suffix r
  split
  · split
    · exact (takeUrl_suffix _).trans (takeEscape_suffix r)
    · exact afterBadUrl_suffix r
  · exact takeUrl_suffix r

/-- An address that ends before a cut, unspoilt, is read without what follows it. -/
theorem takeUrl_cut {value : List Char} (h : takeUrl (z ++ v) = (some value, y ++ v)) :
    takeUrl z = (some value, y) := by
  induction hsize : z.length using Nat.strong_induction_on generalizing z value with
  | _ size ih =>
      cases z with
      | nil =>
          cases v with
          | nil => simpa using h
          | cons d v =>
              have hleft := takeUrl_cons_suffix d v
              rw [← List.nil_append (d :: v), h] at hleft
              exact absurd (length_le_of_suffix_append hleft) (Nat.not_succ_le_self _)
      | cons c z =>
          have hshorter : ∀ w : List Char, w <:+ z → w.length < size := fun w hw =>
            hsize ▸ Nat.lt_succ_of_le hw.length_le
          rw [takeUrl.eq_def] at h ⊢
          simp only [List.cons_append] at h ⊢
          split at h
          · rename_i hclose
            obtain ⟨hvalue, hrest⟩ := Prod.ext_iff.mp h
            rw [if_pos hclose]
            exact Prod.ext hvalue (List.append_cancel_right hrest)
          split at h
          · rename_i hclose hblank
            obtain ⟨hvalue, hrest⟩ := Prod.ext_iff.mp h
            simp only at hvalue hrest
            split at hvalue
            · rename_i hclosed
              have hread : closeUrl z = (true, y) := closeUrl_cut (Prod.ext hclosed hrest)
              simp only [hclose, hblank, if_true, hread]
              exact Prod.ext hvalue rfl
            · cases hvalue
          split at h
          · cases h
          rename_i hclose hblank hbad
          rw [if_neg hclose, if_neg hblank, if_neg hbad]
          split at h
          · rename_i hslash
            rw [if_pos hslash]
            split at h
            · rename_i hescapes
              obtain ⟨e, w, more, hescape, hmore, rfl⟩ := escaped_cut takeUrl_suffix h
              have hw : w <:+ z := by
                have := takeEscape_suffix z
                rwa [hescape] at this
              rw [if_pos (escapes_of_append hescapes), hescape, ih _ (hshorter w hw) hmore rfl]
              rfl
            · cases h
          · rename_i hslash
            obtain ⟨more, hmore, rfl⟩ := map_cut h
            rw [if_neg hslash, ih _ (hshorter z List.suffix_rfl) hmore rfl]
            rfl

/-- Behind the blanks of `url(` at most one of which is left stands the address. -/
theorem dropBlank_squeezeBlanks (s : List Char) :
    dropBlank (squeezeBlanks s) = s.dropWhile isBlank := by
  fun_induction squeezeBlanks s with
  | case1 c d r h ih =>
      rw [ih, List.dropWhile_cons_of_pos (Bool.and_eq_true_iff.mp h).1]
  | case2 c d r h =>
      by_cases hc : isBlank c
      · have hd : ¬isBlank d = true := fun hd => h (by rw [hc, hd]; rfl)
        rw [dropBlank, if_pos hc, List.dropWhile_cons_of_pos hc, List.dropWhile_cons_of_neg hd]
      · rw [dropBlank, if_neg hc, List.dropWhile_cons_of_neg hc]
  | case3 s h =>
      cases s with
      | nil => rfl
      | cons c s =>
          cases s with
          | nil =>
              rw [dropBlank, List.dropWhile_cons]
              rfl
          | cons d r => exact absurd rfl (h c d r)

/-- Squeezing a run of whitespace keeps what stands behind it. -/
theorem dropWhile_squeezeBlanks (s : List Char) :
    (squeezeBlanks s).dropWhile isBlank = s.dropWhile isBlank := by
  fun_induction squeezeBlanks s with
  | case1 c d r h ih => rw [ih, List.dropWhile_cons_of_pos (Bool.and_eq_true_iff.mp h).1]
  | case2 => rfl
  | case3 => rfl

/-- Whitespace is squeezed locally, if something of the text is left in front of the cut. -/
theorem squeezeBlanks_cut (h : squeezeBlanks (z ++ v) = y ++ v) (hy : y ≠ []) :
    squeezeBlanks z = y := by
  induction z with
  | nil => exact absurd (eq_nil_of_suffix (h ▸ squeezeBlanks_suffix v)) hy
  | cons c z ih =>
      cases z with
      | nil =>
          cases v with
          | nil => simpa using h
          | cons d v =>
              rw [List.singleton_append, squeezeBlanks] at h
              split at h
              · exact absurd (eq_nil_of_suffix (h ▸ squeezeBlanks_suffix (d :: v))) hy
              · rw [← List.singleton_append] at h
                rw [← List.append_cancel_right h]
                rfl
      | cons d z =>
          rw [List.cons_append, List.cons_append, squeezeBlanks] at h
          rw [squeezeBlanks]
          split at h
          · rename_i hblank
            rw [if_pos hblank]
            exact ih h
          · rename_i hblank
            rw [if_neg hblank]
            rw [← List.cons_append, ← List.cons_append] at h
            exact List.append_cancel_right h

end Token

end Selectors

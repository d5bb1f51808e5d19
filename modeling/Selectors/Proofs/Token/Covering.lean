import Selectors.Proofs.Token.Cutting

/-!
# Tokens and comments cover the text

Whatever the text is, reading it ends, and nothing is read twice or left out: one token or comment
begins where the last one ends, and the last of all ends with the text.  So the places of the tokens
are in order and apart from each other, and what lies between them is comments.  A run of blanks is
one token, and only a comment can divide it.

* `Token.CommentAt` says where a comment begins and ends, read off the characters alone.
* `Token.Tiles` is the row of tokens and comments, and `Token.tiles_lexFrom` says that reading
  makes one.
* `Token.Covers` is what follows for the places of the tokens, and `TokenStream.read_covers` is the
  result.
-/

namespace Selectors

namespace Token

variable {source s r : List Char} {c : Char} {t u : Token} {ts : List Token}
  {i j k start stop : Nat}

/-! ### Comments -/

/-- The two signs that close a comment stand at `i` and behind it. -/
def ClosesAt (source : List Char) (i : Nat) : Prop :=
  source[i]? = some '*' ∧ source[i + 1]? = some '/'

/-- A comment from `start` up to `stop`.  It is closed by the first closing signs behind its opening
ones, and where there are none it goes on to the end of the text. -/
structure CommentAt (source : List Char) (start stop : Nat) : Prop where
  slash : source[start]? = some '/'
  star : source[start + 1]? = some '*'
  closed : (∃ i, start + 2 ≤ i ∧ stop = i + 2 ∧ ClosesAt source i ∧
      ∀ j, start + 2 ≤ j → j < i → ¬ClosesAt source j) ∨
    stop = source.length ∧ ∀ j, start + 2 ≤ j → ¬ClosesAt source j

/-- A comment has at least its two marks. -/
theorem CommentAt.lt (h : CommentAt source start stop) : start + 2 ≤ stop := by
  have hstar : start + 1 < source.length := by
    by_contra hlong
    have hnone := List.getElem?_eq_none (Nat.le_of_not_lt hlong)
    rw [h.star] at hnone
    cases hnone
  rcases h.closed with ⟨i, hi, rfl, -⟩ | ⟨rfl, -⟩ <;> omega

/-- Where a comment closes, one character further on. -/
theorem closesAt_cons_succ : ClosesAt (c :: s) (i + 1) ↔ ClosesAt s i :=
  Iff.rfl

/-- Where a comment closes, behind a part of the text. -/
theorem closesAt_append {pre : List Char} :
    ClosesAt (pre ++ s) (pre.length + i) ↔ ClosesAt s i := by
  unfold ClosesAt
  rw [Nat.add_assoc, List.getElem?_append_right (Nat.le_add_right ..),
    List.getElem?_append_right (Nat.le_add_right ..), Nat.add_sub_cancel_left,
    Nat.add_sub_cancel_left]

/-- What is left after a comment stands behind the first closing signs, if there are any. -/
theorem afterComment_spec (s : List Char) :
    (∃ i, ClosesAt s i ∧ (∀ j < i, ¬ClosesAt s j) ∧ (afterComment s).length + (i + 2) = s.length) ∨
      (∀ j, ¬ClosesAt s j) ∧ afterComment s = [] := by
  fun_induction afterComment s with
  | case1 => exact Or.inr ⟨fun j h => by simp [ClosesAt] at h, rfl⟩
  | case2 r =>
      refine Or.inl ⟨0, ⟨rfl, rfl⟩, fun j hj => absurd hj (Nat.not_lt_zero j), ?_⟩
      simp
  | case3 c r hnot ih =>
      have hfirst : ¬ClosesAt (c :: r) 0 := by
        intro h
        obtain ⟨r', hr'⟩ : ∃ r', r = '/' :: r' := List.head?_eq_some_iff.mp (by
          rw [List.head?_eq_getElem?]
          exact h.2)
        exact hnot r' (Option.some.inj h.1) hr'
      rcases ih with ⟨i, hi, hbefore, hrest⟩ | ⟨hnone, hrest⟩
      · refine Or.inl ⟨i + 1, closesAt_cons_succ.mpr hi, fun j hj => ?_, ?_⟩
        · cases j with
          | zero => exact hfirst
          | succ j => exact fun h => hbefore j (by omega) (closesAt_cons_succ.mp h)
        · rw [List.length_cons]
          omega
      · refine Or.inr ⟨fun j => ?_, hrest⟩
        cases j with
        | zero => exact hfirst
        | succ j => exact fun h => hnone j (closesAt_cons_succ.mp h)

/-- **What is skipped as a comment is one.** -/
theorem commentAt_of_suffix (hs : '/' :: '*' :: r <:+ source) :
    CommentAt source (source.length - (r.length + 2))
      (source.length - (afterComment r).length) := by
  obtain ⟨pre, rfl⟩ := hs
  have hlength : (pre ++ '/' :: '*' :: r).length = pre.length + (r.length + 2) := by
    simp [Nat.add_assoc]
  have hbody : ∀ j, pre.length + 2 ≤ j →
      (ClosesAt (pre ++ '/' :: '*' :: r) j ↔ ClosesAt r (j - (pre.length + 2))) := by
    intro j hj
    obtain ⟨d, rfl⟩ := Nat.exists_eq_add_of_le hj
    rw [Nat.add_sub_cancel_left, show pre.length + 2 + d = pre.length + (d + 1 + 1) by omega,
      closesAt_append]
    rfl
  rw [hlength, Nat.add_sub_cancel]
  refine ⟨by simp, by simp, ?_⟩
  rcases afterComment_spec r with ⟨i, hi, hbefore, hrest⟩ | ⟨hnone, hrest⟩
  · refine Or.inl ⟨pre.length + 2 + i, by omega, by omega, ?_, fun j hj hji => ?_⟩
    · rw [hbody _ (by omega), Nat.add_sub_cancel_left]
      exact hi
    · rw [hbody j hj]
      exact hbefore _ (by omega)
  · refine Or.inr ⟨by rw [hrest, hlength]; simp, fun j hj => ?_⟩
    rw [hbody j hj]
    exact hnone _

/-! ### Whitespace -/

/-- A number is no whitespace. -/
theorem scanNumber_ne_whitespace (s : List Char) : (scanNumber s).1 ≠ .whitespace := by
  unfold scanNumber
  dsimp only
  split
  · exact TokenKind.noConfusion
  · split <;> exact TokenKind.noConfusion

/-- A name is no whitespace. -/
theorem scanName_ne_whitespace (s : List Char) : (scanName s).1 ≠ .whitespace := by
  unfold scanName
  dsimp only
  split
  · split
    · unfold scanUrl
      dsimp only
      split
      · exact TokenKind.noConfusion
      · split <;> exact TokenKind.noConfusion
    · exact TokenKind.noConfusion
  · exact TokenKind.noConfusion

/-- **Only a blank begins a whitespace token**, and then all blanks that follow are part of it. -/
theorem isBlank_of_scan (h : (scan c r).1 = .whitespace) :
    isBlank c = true ∧ (scan c r).2 = r.dropWhile isBlank := by
  by_cases hc : isBlank c = true
  · exact ⟨hc, by rw [scan, if_pos hc]⟩
  · refine absurd h ?_
    rw [scan, if_neg hc]
    split
    · unfold scanString
      split <;> exact TokenKind.noConfusion
    split
    · unfold scanHash
      split <;> exact TokenKind.noConfusion
    split
    · unfold scanHyphen
      split
      · exact scanNumber_ne_whitespace _
      · split
        · exact TokenKind.noConfusion
        · split
          · exact scanName_ne_whitespace _
          · exact TokenKind.noConfusion
    split
    · unfold scanLess
      split <;> exact TokenKind.noConfusion
    split
    · unfold scanAt
      split <;> exact TokenKind.noConfusion
    split
    · split
      · exact scanNumber_ne_whitespace _
      · exact TokenKind.noConfusion
    split
    · exact scanNumber_ne_whitespace _
    split
    · exact scanName_ne_whitespace _
    · unfold scanSingle
      split <;> exact TokenKind.noConfusion

/-- A token that begins where a whitespace token ends is no whitespace.  No comment is skipped
there, so the blanks end at its first character. -/
theorem not_isWhitespace_behind (h : (scan c r).1 = .whitespace)
    (hu : lexFrom (scan c r).2 k = u :: ts) (hplace : u.start = k) : u.isWhitespace = false := by
  rw [(isBlank_of_scan h).2] at hu
  obtain ⟨d, r', hskip, rfl, -⟩ := exists_of_lexFrom hu
  have hsuffix := skipComments_suffix (r.dropWhile isBlank)
  rw [hskip] at hsuffix
  have hnone : r.dropWhile isBlank = d :: r' := by
    refine (hsuffix.eq_of_length ?_).symm
    have hle := hsuffix.length_le
    simp only [first, List.length_cons] at hplace hle ⊢
    omega
  rw [isWhitespace, beq_eq_false_iff_ne]
  intro hspace
  have hblank := List.head?_dropWhile_not isBlank r
  rw [hnone] at hblank
  have hnot : isBlank d = false := hblank
  rw [(isBlank_of_scan hspace).1] at hnot
  cases hnot

/-! ### Rows of tokens and comments -/

/-- From the place `i` on the text is a row of comments and the given tokens, up to its end. -/
inductive Tiles (source : List Char) : Nat → List Token → Prop
  | done : Tiles source source.length []
  | comment {i j : Nat} {ts : List Token} (skipped : CommentAt source i j)
      (more : Tiles source j ts) : Tiles source i ts
  | token {t : Token} {ts : List Token} (nonempty : t.start < t.stop)
      (apart : t.isWhitespace = true → ∀ u ∈ ts.head?, u.start = t.stop → u.isWhitespace = false)
      (more : Tiles source t.stop ts) : Tiles source t.start (t :: ts)

/-- Comments that are skipped are tiles in front of the tokens. -/
theorem tiles_skipComments (hs : s <:+ source)
    (h : Tiles source (source.length - (skipComments s).length) ts) :
    Tiles source (source.length - s.length) ts := by
  fun_induction skipComments s with
  | case1 r ih =>
      refine .comment (commentAt_of_suffix hs) (ih ?_ h)
      have htail : r <:+ source :=
        ((List.suffix_cons _ _).trans (List.suffix_cons _ _)).trans hs
      exact (afterComment_suffix r).trans htail
  | case2 => exact h

/-- **Reading makes a row of tokens and comments** that reaches the end of the text. -/
theorem tiles_lexFrom (hs : s <:+ source) :
    Tiles source (source.length - s.length) (lexFrom s (source.length - s.length)) := by
  induction hsize : s.length using Nat.strong_induction_on generalizing s with
  | _ size ih =>
      rw [← hsize]
      refine tiles_skipComments hs ?_
      cases hskip : skipComments s with
      | nil =>
          rw [lexFrom_of_nil hskip]
          exact .done
      | cons c r =>
          have hsuffix := skipComments_suffix s
          rw [hskip] at hsuffix
          have hrest := ((scan_suffix c r).trans (List.suffix_cons c r)).trans hsuffix
          have hwithin := hs.length_le
          obtain ⟨hstart, hlength, hstop⟩ := first_bounds (o := source.length - s.length) hskip
          rw [lexFrom_of_cons hskip]
          generalize ht : first s (source.length - s.length) c r = t at hstart hlength hstop ⊢
          have hplace : source.length - (c :: r).length = t.start := by
            have hle := hsuffix.length_le
            subst ht
            simp only [first, List.length_cons] at hle ⊢
            omega
          have hnext : t.stop = source.length - (scan c r).2.length := by
            omega
          rw [hplace]
          refine .token hlength (fun hspace u hu huplace => ?_) ?_
          · have hkind : (scan c r).1 = .whitespace := by
              subst ht
              exact beq_iff_eq.mp hspace
            obtain ⟨us, hus⟩ := List.head?_eq_some_iff.mp hu
            exact not_isWhitespace_behind hkind hus huplace
          · rw [hnext]
            exact ih _ (by omega) (hrest.trans hs) rfl

/-! ### Places -/

/-- What is tiled lies inside the text. -/
theorem Tiles.le_length (h : Tiles source i ts) : i ≤ source.length := by
  induction h with
  | done => exact Nat.le_refl _
  | comment skipped _ ih => exact Nat.le_trans (by have := skipped.lt; omega) ih
  | token nonempty _ _ ih => exact Nat.le_trans (Nat.le_of_lt nonempty) ih

/-- The tokens of a row stand behind its beginning, each of them within the text. -/
theorem Tiles.bounds (h : Tiles source i ts) (ht : t ∈ ts) :
    i ≤ t.start ∧ t.start < t.stop ∧ t.stop ≤ source.length := by
  induction h with
  | done => cases ht
  | comment skipped _ ih =>
      have hlt := skipped.lt
      have := ih ht
      omega
  | token nonempty _ more ih =>
      rcases List.mem_cons.mp ht with rfl | ht
      · exact ⟨Nat.le_refl _, nonempty, more.le_length⟩
      · have := ih ht
        omega

/-- Tiles are in order and apart from each other. -/
theorem Tiles.ordered (h : Tiles source i ts) :
    ts.Pairwise fun t u => t.start < u.start ∧ t.stop ≤ u.start := by
  induction h with
  | done => exact List.Pairwise.nil
  | comment _ _ ih => exact ih
  | token nonempty _ more ih =>
      refine List.pairwise_cons.mpr ⟨fun u hu => ?_, ih⟩
      have := more.bounds hu
      omega

/-- There are no more tokens than characters, since each takes at least one. -/
theorem Tiles.length_le (h : Tiles source i ts) : i + ts.length ≤ source.length := by
  induction h with
  | done => simp
  | comment skipped _ ih =>
      have := skipped.lt
      omega
  | token nonempty _ _ ih =>
      rw [List.length_cons]
      omega

/-- What no token of a row holds lies in a comment that lies apart from all its tokens. -/
theorem Tiles.covered (h : Tiles source i ts) (hi : i ≤ k) (hk : k < source.length)
    (hnone : ∀ t ∈ ts, ¬(t.start ≤ k ∧ k < t.stop)) :
    ∃ start stop, CommentAt source start stop ∧ i ≤ start ∧ start ≤ k ∧ k < stop ∧
      ∀ t ∈ ts, t.stop ≤ start ∨ stop ≤ t.start := by
  induction h with
  | done => omega
  | @comment i j ts skipped more ih =>
      by_cases hkj : k < j
      · refine ⟨i, j, skipped, Nat.le_refl _, hi, hkj, fun t ht => Or.inr ?_⟩
        exact (more.bounds ht).1
      · obtain ⟨start, stop, hcomment, hstart, hrest⟩ := ih (Nat.le_of_not_lt hkj) hnone
        have := skipped.lt
        exact ⟨start, stop, hcomment, by omega, hrest⟩
  | @token t ts nonempty _ more ih =>
      have hbehind : t.stop ≤ k := by
        have := hnone t List.mem_cons_self
        omega
      obtain ⟨start, stop, hcomment, hstart, hfrom, hto, hapart⟩ :=
        ih hbehind fun u hu => hnone u (List.mem_cons_of_mem t hu)
      refine ⟨start, stop, hcomment, by omega, hfrom, hto, fun u hu => ?_⟩
      rcases List.mem_cons.mp hu with rfl | hu
      · exact Or.inl hstart
      · exact hapart u hu

/-- A row that does not begin with its first token begins with a comment before it. -/
theorem Tiles.comment_first (h : Tiles source i (u :: ts)) (hne : u.start ≠ i) :
    ∃ stop, CommentAt source i stop ∧ stop ≤ u.start := by
  cases h with
  | comment skipped more => exact ⟨_, skipped, (more.bounds List.mem_cons_self).1⟩
  | token => exact absurd rfl hne

/-- Whitespace behind whitespace stands behind a comment. -/
theorem Tiles.apart (h : Tiles source i ts) {before after : List Token}
    (hts : ts = before ++ t :: u :: after) (ht : t.isWhitespace = true)
    (hu : u.isWhitespace = true) : ∃ stop, CommentAt source t.stop stop ∧ stop ≤ u.start := by
  induction h generalizing before with
  | done => simp at hts
  | comment _ _ ih => exact ih hts
  | token _ apart more ih =>
      cases before with
      | cons b before => exact ih (List.cons_eq_cons.mp hts).2
      | nil =>
          obtain ⟨rfl, rfl⟩ := List.cons_eq_cons.mp hts
          refine more.comment_first fun hplace => ?_
          have hnot := apart ht u rfl hplace
          rw [hu] at hnot
          cases hnot

/-- **The tokens cover the text**, except for comments. -/
structure Covers (source : List Char) (ts : List Token) : Prop where
  /-- Reading ends: there are no more tokens than characters. -/
  ends : ts.length ≤ source.length
  nonempty : ∀ t ∈ ts, t.start < t.stop
  inside : ∀ t ∈ ts, t.stop ≤ source.length
  ordered : ts.Pairwise fun t u => t.start < u.start ∧ t.stop ≤ u.start
  /-- What no token holds lies in a comment, and no token reaches into that. -/
  covered : ∀ i < source.length, (∀ t ∈ ts, ¬(t.start ≤ i ∧ i < t.stop)) →
    ∃ start stop, CommentAt source start stop ∧ start ≤ i ∧ i < stop ∧
      ∀ t ∈ ts, t.stop ≤ start ∨ stop ≤ t.start
  /-- Between two whitespace tokens stands a comment. -/
  apart : ∀ before t u after, ts = before ++ t :: u :: after → t.isWhitespace = true →
    u.isWhitespace = true → ∃ stop, CommentAt source t.stop stop ∧ stop ≤ u.start

/-- **A tiled text is covered**: by its tokens, and by comments between them. -/
theorem Tiles.covers (h : Tiles source 0 ts) : Covers source ts where
  ends := by simpa using h.length_le
  nonempty _ ht := (h.bounds ht).2.1
  inside _ ht := (h.bounds ht).2.2
  ordered := h.ordered
  covered i hi hnone := by
    obtain ⟨start, stop, hcomment, -, hrest⟩ := h.covered (Nat.zero_le i) hi hnone
    exact ⟨start, stop, hcomment, hrest⟩
  apart _ _ _ _ hts ht hu := h.apart hts ht hu

end Token

/-- **Every text is read to its end**: its source are its characters, with line ends in one form and
without zeros, and its tokens cover them except for comments. -/
theorem TokenStream.read_covers (text : String) :
    (TokenStream.read text).source = Token.normalize text.toList ∧
      Token.Covers (Token.normalize text.toList) (TokenStream.read text).tokens := by
  refine ⟨rfl, ?_⟩
  have hwhole : Token.normalize text.toList <:+ Token.normalize text.toList := List.suffix_rfl
  have hrow := Token.tiles_lexFrom hwhole
  rw [Nat.sub_self] at hrow
  exact hrow.covers

end Selectors

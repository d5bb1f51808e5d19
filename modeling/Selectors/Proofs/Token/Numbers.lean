import Selectors.Proofs.Token.Local

/-!
# How far a number is read

A sign, a point and the letter of a power belong to a number only if digits follow, so its readers
look up to three characters ahead.  What they look for they also take, and so a number that ends
before a cut is read without what follows it.

* `Token.Local.guard` is about readers that go on under a condition only.
* `Token.local_takeNumeral` is about numbers, `Token.atNumber_of_append` about where they begin.
-/

namespace Selectors

namespace Token

variable {α : Type} {s x y z v : List Char} {c : Char}

/-- The character behind the first is found locally. -/
theorem local_tail : Local fun s : List Char => ((), s.tail) where
  suffix := List.tail_suffix
  cut {z y v a} h := by
    have hrest := (Prod.ext_iff.mp h).2
    simp only at hrest
    cases z with
    | nil =>
        have hnil : y = [] := eq_nil_of_suffix (hrest ▸ List.tail_suffix v)
        rw [hnil]
        rfl
    | cons c z => exact Prod.ext rfl (List.append_cancel_right hrest)

/-- A reader that goes on under a condition only, and otherwise takes nothing.  Its condition must
be one that a text keeps as it grows, and that looks no further than the reader goes. -/
theorem Local.guard {read : List Char → α × List Char} {p : List Char → Bool} (h : Local read)
    (grows : ∀ z v, p z = true → p (z ++ v) = true)
    (near : ∀ z v y, p (z ++ v) = true → (read (z ++ v)).2 = y ++ v → p z = true) (none : α) :
    Local fun s => if p s then read s else (none, s) where
  suffix s := by
    split
    · exact h.suffix s
    · exact List.suffix_rfl
  cut {z y v a} heq := by
    by_cases hz : p (z ++ v)
    · simp only [hz, if_true] at heq
      rw [if_pos (near z v y hz (congrArg Prod.snd heq))]
      exact h.cut heq
    · have hz' : ¬p z = true := fun hz' => hz (grows z v hz')
      simp only [hz] at heq
      rw [if_neg hz']
      obtain ⟨hnone, hrest⟩ := Prod.ext_iff.mp heq
      exact Prod.ext hnone (List.append_cancel_right hrest)

theorem dropWhile_length {p : Char → Bool} (h : s.head?.any p = true) :
    (s.dropWhile p).length < s.length := by
  cases s with
  | nil => cases h
  | cons c s =>
      have hc : p c = true := h
      rw [List.dropWhile_cons_of_pos hc]
      exact Nat.lt_succ_of_le (List.dropWhile_suffix p).length_le

/-- No other character is a sign. -/
theorem takeSign_of_ne (hplus : c ≠ '+') (hminus : c ≠ '-') : takeSign (c :: s) = (none, c :: s) :=
  takeSign.eq_3 _ (fun _ h => hplus (List.cons_eq_cons.mp h).1)
    fun _ h => hminus (List.cons_eq_cons.mp h).1

/-- A sign is the first character alone. -/
theorem takeSign_cons_append (c : Char) (z v : List Char) :
    takeSign (c :: z ++ v) = ((takeSign (c :: z)).1, (takeSign (c :: z)).2 ++ v) := by
  rw [List.cons_append]
  by_cases hplus : c = '+'
  · subst hplus
    rfl
  by_cases hminus : c = '-'
  · subst hminus
    rfl
  rw [takeSign_of_ne hplus hminus, takeSign_of_ne hplus hminus]
  rfl

/-- A sign is read locally. -/
theorem local_takeSign : Local takeSign where
  suffix := takeSign_suffix
  cut {z y v a} h := by
    cases z with
    | nil =>
        have hnil : y = [] := by
          have hleft := takeSign_suffix v
          rw [← List.nil_append v, h] at hleft
          exact eq_nil_of_suffix hleft
        subst hnil
        have hsign : (takeSign v).1 = none := by
          have hrest : (takeSign v).2 = v := congrArg Prod.snd h
          unfold takeSign at hrest ⊢
          split at hrest
          · exact absurd (congrArg List.length hrest) (by simp)
          · exact absurd (congrArg List.length hrest) (by simp)
          · rfl
        have ha : (takeSign v).1 = a := congrArg Prod.fst h
        rw [← ha, hsign]
        rfl
    | cons c z =>
        rw [takeSign_cons_append] at h
        obtain ⟨hsign, hrest⟩ := Prod.ext_iff.mp h
        exact Prod.ext hsign (List.append_cancel_right hrest)

/-- Decimal places are read behind a point, if a digit follows it. -/
theorem takePlaces_eq (s : List Char) :
    takePlaces s =
      if s.head? = some '.' && s.tail.head?.any Char.isDigit then
        (s.tail.takeWhile Char.isDigit, s.tail.dropWhile Char.isDigit)
      else ([], s) := by
  unfold takePlaces
  split
  · simp
  · rename_i hnot
    rw [if_neg]
    intro h
    match s, h with
    | [], h => simp at h
    | [c], h => simp at h
    | c :: d :: r, h =>
        simp only [List.head?_cons, Option.some.injEq, Bool.and_eq_true, decide_eq_true_eq] at h
        exact hnot d r (by rw [h.1])

/-- Decimal places are read locally: the digit that is looked for is taken. -/
theorem local_takePlaces : Local takePlaces := by
  have hread := local_tail.bind fun _ => local_span Char.isDigit
  rw [funext takePlaces_eq]
  refine hread.guard (fun z v h => ?_) (fun z v y h hrest => ?_) []
  · match z, h with
    | [], h => simp at h
    | [c], h => simp at h
    | c :: d :: z, h => exact h
  · match z with
    | [] =>
        cases v with
        | nil => simp at h
        | cons d v =>
            have hleft := List.dropWhile_suffix Char.isDigit (l := v)
            simp only [List.nil_append, List.tail_cons] at hrest
            rw [hrest] at hleft
            exact absurd (length_le_of_suffix_append hleft) (Nat.not_succ_le_self _)
    | [c] =>
        have hleft : v.dropWhile Char.isDigit = y ++ v := hrest
        have hshorter := dropWhile_length (Bool.and_eq_true_iff.mp h).2
        simp only [List.singleton_append, List.tail_cons] at hshorter
        rw [hleft, List.length_append] at hshorter
        omega
    | c :: d :: z => exact h

/-- A power is read behind its letter and a sign, if a digit follows them. -/
theorem takePower_eq (s : List Char) :
    takePower s =
      if s.head?.any (fun c => c == 'e' || c == 'E') &&
          (takeSign s.tail).2.head?.any Char.isDigit then
        (some (if (takeSign s.tail).1 = some .minus then
            -(Text.natOfDigits ((takeSign s.tail).2.takeWhile Char.isDigit) : Int)
          else (Text.natOfDigits ((takeSign s.tail).2.takeWhile Char.isDigit) : Int)),
          (takeSign s.tail).2.dropWhile Char.isDigit)
      else (none, s) := by
  cases s with
  | nil => rfl
  | cons c r => rfl

/-- A power is read locally: the digit that is looked for is taken. -/
theorem local_takePower : Local takePower := by
  have hread := local_tail.bind fun _ => local_takeSign.bind fun sign =>
    (local_span Char.isDigit).map fun digits =>
      some (if sign = some .minus then -(Text.natOfDigits digits : Int)
        else (Text.natOfDigits digits : Int))
  rw [funext takePower_eq]
  refine hread.guard (fun z v h => ?_) (fun z v y h hrest => ?_) none
  · obtain ⟨hletter, hdigit⟩ := Bool.and_eq_true_iff.mp h
    match z with
    | [] => simp at hletter
    | [c] => simp [takeSign] at hdigit
    | c :: d :: z =>
        refine Bool.and_eq_true_iff.mpr ⟨hletter, ?_⟩
        rw [List.tail_cons] at hdigit
        rw [List.cons_append, List.tail_cons, takeSign_cons_append]
        cases hleft : (takeSign (d :: z)).2 with
        | nil => simp [hleft] at hdigit
        | cons e w =>
            rw [hleft] at hdigit
            exact hdigit
  · obtain ⟨hletter, hdigit⟩ := Bool.and_eq_true_iff.mp h
    cases z with
    | nil =>
        cases v with
        | nil => simp at hletter
        | cons d v =>
            have hleft : ((takeSign v).2.dropWhile Char.isDigit) <:+ v :=
              (List.dropWhile_suffix _).trans (takeSign_suffix v)
            simp only [List.nil_append, List.tail_cons] at hrest
            rw [hrest] at hleft
            exact absurd (length_le_of_suffix_append hleft) (Nat.not_succ_le_self _)
    | cons c z =>
        simp only [List.cons_append, List.tail_cons] at hdigit hrest
        have hleft := List.dropWhile_suffix Char.isDigit (l := (takeSign (z ++ v)).2)
        rw [hrest] at hleft
        obtain ⟨w, hw⟩ :=
          ends_of_suffix (takeSign_suffix (z ++ v)) (length_le_of_suffix_append hleft)
        have hsign : takeSign z = ((takeSign (z ++ v)).1, w) := local_takeSign.cut (Prod.ext rfl hw)
        refine Bool.and_eq_true_iff.mpr ⟨hletter, ?_⟩
        rw [List.tail_cons, hsign]
        have hshorter := dropWhile_length hdigit
        rw [hrest, hw] at hshorter
        rw [hw] at hdigit
        cases w with
        | nil =>
            simp only [List.nil_append, List.length_append] at hshorter
            omega
        | cons d w => exact hdigit

/-- **Numerals are read locally.** -/
theorem local_takeNumeral : Local takeNumeral :=
  local_takeSign.bind fun sign => (local_span Char.isDigit).bind fun whole =>
    local_takePlaces.bind fun places => local_takePower.map fun exponent =>
      Numeral.mk sign (Text.natOfDigits (whole ++ places)) places.length exponent

/-- A number without a sign begins with a digit, or with a point and a digit. -/
theorem atUnsigned_eq (s : List Char) :
    atNumber.atUnsigned s =
      (s.head?.any Char.isDigit || (s.head? = some '.' && s.tail.head?.any Char.isDigit)) := by
  unfold atNumber.atUnsigned
  split
  · simp
  · rename_i c r hnot
    cases r with
    | nil => simp
    | cons d r =>
        have hpoint : c ≠ '.' := fun hc => hnot d r hc rfl
        simp [hpoint]
  · rfl

/-- A number begins behind its sign. -/
theorem atNumber_eq (s : List Char) : atNumber s = atNumber.atUnsigned (takeSign s).2 := by
  unfold atNumber takeSign
  split <;> rfl

/-- A number without a sign still begins in a longer text. -/
theorem atUnsigned_append (h : atNumber.atUnsigned z = true) :
    atNumber.atUnsigned (z ++ v) = true := by
  rw [atUnsigned_eq] at h ⊢
  match z with
  | [] => simp at h
  | [c] =>
      have hdigit : c.isDigit = true := by
        simpa using h
      simp [hdigit]
  | c :: d :: z => exact h

/-- A number still begins in a longer text. -/
theorem atNumber_append (h : atNumber z = true) : atNumber (z ++ v) = true := by
  cases z with
  | nil => cases h
  | cons c z =>
      rw [atNumber_eq] at h ⊢
      rw [takeSign_cons_append]
      exact atUnsigned_append h

/-- The digit behind a point is taken, and the point with it. -/
theorem takePlaces_length (hdigit : s.head?.any Char.isDigit = true) :
    (takePlaces (('.' :: s).dropWhile Char.isDigit)).2.length < s.length := by
  rw [List.dropWhile_cons_of_neg (by decide), takePlaces_eq]
  simp only [List.head?_cons, List.tail_cons, hdigit, decide_true, Bool.and_self, if_true]
  exact dropWhile_length hdigit

/-- What follows the cut does not make a number begin before it, if the number ends before it. -/
theorem atNumber_of_append (h : atNumber (c :: z ++ v) = true)
    (hread : (takeNumeral (c :: z ++ v)).2 = y ++ v) : atNumber (c :: z) = true := by
  rw [atNumber_eq, takeSign_cons_append] at h
  rw [atNumber_eq]
  unfold takeNumeral at hread
  rw [takeSign_cons_append] at hread
  simp only at h hread ⊢
  generalize (takeSign (c :: z)).2 = u at h hread ⊢
  have hplaces : v.length ≤ (takePlaces ((u ++ v).dropWhile Char.isDigit)).2.length := by
    have := takePower_suffix (takePlaces ((u ++ v).dropWhile Char.isDigit)).2
    rw [hread] at this
    exact length_le_of_suffix_append this
  rw [atUnsigned_eq] at h ⊢
  match u with
  | [] =>
      exfalso
      rw [List.nil_append] at h hplaces
      rcases Bool.or_eq_true_iff.mp h with hdigit | hpoint
      · have := (takePlaces_suffix (v.dropWhile Char.isDigit)).length_le
        have := dropWhile_length hdigit
        omega
      · obtain ⟨hhead, hdigit⟩ := Bool.and_eq_true_iff.mp hpoint
        cases v with
        | nil => simp at hhead
        | cons d v =>
            have hd : d = '.' := by
              simpa using hhead
            subst hd
            have := takePlaces_length (s := v) hdigit
            rw [List.length_cons] at hplaces
            omega
  | [d] =>
      rcases Bool.or_eq_true_iff.mp h with hdigit | hpoint
      · have hd : d.isDigit = true := hdigit
        simp [hd]
      · obtain ⟨hhead, hdigit⟩ := Bool.and_eq_true_iff.mp hpoint
        have hd : d = '.' := by
          simpa using hhead
        subst hd
        have := takePlaces_length (s := v) hdigit
        rw [List.singleton_append] at hplaces
        omega
  | d :: e :: u => exact h

end Token

end Selectors

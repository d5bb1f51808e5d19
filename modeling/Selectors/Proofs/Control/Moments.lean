import Selectors.Control.Moment
import Selectors.Proofs.Text.Cutting

/-!
# Which dates and times are read

A value of a date or time type is read exactly if its fields are numbers between their limits with
the right marks between them.  Of a time what stands behind a colon after the seconds is not read.

* `Decimal.isUsed_of_ofText?`: a number holds no mark that stands between fields.
* `Moment.Field` is one number, and `Moment.IsDate`, `Moment.IsYearPart` and `Moment.IsTime` are the
  grammar of values.
* `Moment.Time.isSome_ofText?_iff` is where the reader takes more than the grammar has.
* `Moment.KeyGrammar` says which values have a key, and `Moment.keyGrammar` that it is so.
-/

namespace Selectors

/-! ### Numbers -/

namespace Decimal

variable {c : Char} {s : List Char}

/-- The characters of a number. -/
def IsUsed (c : Char) : Prop :=
  c.isDigit = true ∨ c ∈ ['+', '-', '.', 'e', 'E']

instance (c : Char) : Decidable (IsUsed c) :=
  inferInstanceAs (Decidable (_ ∨ _))

/-- A sign is one of the characters of numbers. -/
theorem isUsed_of_takeSign (hs : ∀ c ∈ (takeSign s).2, IsUsed c) : ∀ c ∈ s, IsUsed c := by
  unfold takeSign at hs
  split at hs
  · exact List.forall_mem_cons.mpr ⟨Or.inr (by decide), hs⟩
  · exact List.forall_mem_cons.mpr ⟨Or.inr (by decide), hs⟩
  · exact hs

/-- A whole number holds only the characters of numbers. -/
theorem isUsed_of_integer? {i : Int} (hs : integer? s = some i) : ∀ c ∈ s, IsUsed c := by
  refine isUsed_of_takeSign fun c hc => Or.inl ?_
  unfold integer? at hs
  dsimp only at hs
  split at hs
  · cases hs
  · next hdigits =>
      simp only [Bool.or_eq_true, not_or, Bool.not_eq_true', Bool.not_eq_false] at hdigits
      exact List.all_eq_true.mp hdigits.2 c hc

/-- A power of ten holds only the characters of numbers. -/
theorem isUsed_of_power? {i : Int} (hs : power? s = some i) : ∀ c ∈ s, IsUsed c := by
  cases s with
  | nil => simp
  | cons c s =>
      rw [power?] at hs
      split at hs
      · next hc =>
          have hletter : c = 'e' ∨ c = 'E' := by simpa using hc
          refine List.forall_mem_cons.mpr ⟨Or.inr ?_, isUsed_of_integer? hs⟩
          rcases hletter with rfl | rfl <;> decide
      · cases hs

/-- What stands before and after a run of digits makes up the whole text. -/
theorem isUsed_of_dropWhile (hs : ∀ c ∈ s.dropWhile Char.isDigit, IsUsed c) :
    ∀ c ∈ s, IsUsed c := by
  intro c hc
  rw [← List.takeWhile_append_dropWhile (p := Char.isDigit) (l := s), List.mem_append] at hc
  rcases hc with hc | hc
  · exact Or.inl (List.all_eq_true.mp List.all_takeWhile c hc)
  · exact hs c hc

/-- **A number is written with the characters of numbers only.** -/
theorem isUsed_of_ofText? {d : Decimal} (hs : ofText? s = some d) : ∀ c ∈ s, IsUsed c := by
  refine isUsed_of_takeSign (isUsed_of_dropWhile ?_)
  unfold ofText? at hs
  dsimp only at hs
  generalize (takeSign s).2.dropWhile Char.isDigit = tail at hs ⊢
  split at hs
  · next r =>
      split at hs
      · cases hs
      · obtain ⟨e, he, -⟩ := Option.map_eq_some_iff.mp hs
        exact List.forall_mem_cons.mpr
          ⟨Or.inr (by decide), isUsed_of_dropWhile (isUsed_of_power? he)⟩
  · split at hs
    · cases hs
    · obtain ⟨e, he, -⟩ := Option.map_eq_some_iff.mp hs
      exact isUsed_of_power? he

end Decimal

namespace Moment

variable {low high last : Nat} {mark s a b : List Char}

/-- A mark is found where nothing before it begins like it. -/
theorem cutAtMark?_append {m : Char} (ha : m ∉ a) (mark b : List Char) :
    cutAtMark? (m :: mark) (a ++ (m :: mark) ++ b) = some (a, b) := by
  induction a with
  | nil => simp [cutAtMark?, Text.dropLead?]
  | cons c a ih =>
      obtain ⟨hc, ha⟩ := not_or.mp (List.mem_cons.not.mp ha)
      have hlead : Text.dropLead? (m :: mark) (c :: (a ++ (m :: mark) ++ b)) = none := by
        simp [Text.dropLead?, hc]
      simp only [List.cons_append, cutAtMark?] at hlead ih ⊢
      rw [hlead, ih ha]
      rfl

/-- A text that is cut at a mark is its parts with the mark between them. -/
theorem eq_of_cutAtMark? (hs : cutAtMark? mark s = some (a, b)) : s = a ++ mark ++ b := by
  induction s generalizing a with
  | nil => cases hs
  | cons c s ih =>
      rw [cutAtMark?] at hs
      split at hs
      · next after hlead =>
          obtain ⟨rfl, rfl⟩ := Prod.mk.inj (Option.some.inj hs)
          unfold Text.dropLead? at hlead
          split at hlead
          · next hprefix =>
              cases hlead
              exact (List.prefix_iff_eq_append.mp (List.isPrefixOf_iff_prefix.mp hprefix)).symm
          · cases hlead
      · obtain ⟨⟨before, after⟩, hcut, heq⟩ := Option.map_eq_some_iff.mp hs
        obtain ⟨rfl, rfl⟩ := Prod.mk.inj heq
        rw [ih hcut]
        rfl

/-! ### Grammar -/

/-- The largest number that 32 bits hold. -/
def maxNumber : Nat :=
  Nat.pow 2 32 - 1

/-- The text is a number between two limits, in digits only. -/
def Field (low high : Nat) (s : List Char) : Prop :=
  s ≠ [] ∧ (∀ c ∈ s, c.isDigit = true) ∧ low ≤ Text.natOfDigits s ∧ Text.natOfDigits s ≤ high

/-- Year, month and day with hyphens between them. -/
def IsDate (s : List Char) : Prop :=
  ∃ year month day, s = year ++ '-' :: (month ++ '-' :: day) ∧
    Field 0 maxNumber year ∧ Field 1 12 month ∧ Field 1 31 day

/-- A year, a mark, and the number of a part of the year. -/
def IsYearPart (mark : List Char) (last : Nat) (s : List Char) : Prop :=
  ∃ year part, s = year ++ mark ++ part ∧ Field 0 maxNumber year ∧ Field 1 last part

/-- A decimal number below a minute. -/
def IsSeconds (s : List Char) : Prop :=
  ∃ d, Decimal.ofText? s = some d ∧ 0.0 ≤ d.toFloat ∧ d.toFloat < 60.0

/-- Hour and minute with a colon between them. -/
def IsClock (s : List Char) : Prop :=
  ∃ hour minute, s = hour ++ ':' :: minute ∧ Field 0 23 hour ∧ Field 0 59 minute

/-- Hour, minute and seconds with colons between them. -/
def IsFullTime (s : List Char) : Prop :=
  ∃ hour minute seconds, s = hour ++ ':' :: (minute ++ ':' :: seconds) ∧
    Field 0 23 hour ∧ Field 0 59 minute ∧ IsSeconds seconds

/-- A time of day, with seconds or without. -/
def IsTime (s : List Char) : Prop :=
  IsClock s ∨ IsFullTime s

/-- A time of day, or one with seconds and a colon, behind which anything stands. -/
def StartsWithTime (s : List Char) : Prop :=
  IsTime s ∨ ∃ time rest, s = time ++ ':' :: rest ∧ IsFullTime time

/-! ### Fields -/

/-- Digits are read as the number they write, if it is not too large. -/
theorem number?_eq_some_iff {n : Nat} :
    number? s = some n ↔ Field 0 maxNumber s ∧ Text.natOfDigits s = n := by
  have hbound : Text.natOfDigits s < Nat.pow 2 32 ↔ Text.natOfDigits s ≤ maxNumber :=
    Nat.lt_iff_le_pred (by decide)
  unfold number? Field
  simp only [hbound]
  split
  · next hno =>
      rw [Bool.or_eq_true, List.isEmpty_iff, Bool.not_eq_true', List.all_eq_false] at hno
      grind
  · next hdigits =>
      rw [Bool.or_eq_true, List.isEmpty_iff, Bool.not_eq_true', List.all_eq_false] at hdigits
      grind

/-- A number is read exactly if it is a field up to the largest number. -/
theorem isSome_number?_iff : (number? s).isSome = true ↔ Field 0 maxNumber s := by
  simp [Option.isSome_iff_exists, number?_eq_some_iff]

/-- A number between limits is read exactly if it is a field between them. -/
theorem isSome_numberIn?_iff (hhigh : high ≤ maxNumber) :
    (numberIn? low high s).isSome = true ↔ Field low high s := by
  simp only [numberIn?, Option.isSome_iff_exists, Option.filter_eq_some_iff, number?_eq_some_iff,
    Bool.and_eq_true, decide_eq_true_eq]
  unfold Field
  grind

/-- A field holds digits only. -/
theorem Field.not_mem {c : Char} (hs : Field low high s) (hc : c.isDigit = false) : c ∉ s := by
  intro hmem
  exact absurd (hs.2.1 c hmem) (by simp [hc])

/-- Seconds are read exactly if the grammar has them. -/
theorem isSome_seconds?_iff : (Time.seconds? s).isSome = true ↔ IsSeconds s := by
  simp only [Time.seconds?, Option.isSome_iff_exists, Option.filter_eq_some_iff,
    Option.map_eq_some_iff, Bool.and_eq_true, decide_eq_true_eq]
  unfold IsSeconds
  grind

/-- No colon stands in seconds. -/
theorem IsSeconds.colon_not_mem (hs : IsSeconds s) : ':' ∉ s := by
  obtain ⟨d, hd, -⟩ := hs
  intro hmem
  exact absurd (Decimal.isUsed_of_ofText? hd ':' hmem) (by decide)

/-! ### Values -/

/-- **Dates** are read exactly if the grammar has them. -/
theorem Date.isSome_ofText?_iff : (Date.ofText? s).isSome = true ↔ IsDate s := by
  have hread {y m d : List Char} :
      (do return { year := ← number? y, month := ← numberIn? 1 12 m, day := ← numberIn? 1 31 d } :
        Option Date).isSome = true ↔ Field 0 maxNumber y ∧ Field 1 12 m ∧ Field 1 31 d := by
    rw [← isSome_number?_iff, ← isSome_numberIn?_iff (by decide),
      ← isSome_numberIn?_iff (by decide)]
    cases number? y <;> cases numberIn? 1 12 m <;> cases numberIn? 1 31 d <;> simp
  unfold Date.ofText?
  constructor
  · intro h
    split at h
    · next year month day hpieces =>
        obtain ⟨-, monthDay, rfl, hmonthDay⟩ := Text.pieces_eq_cons_cons_iff.mp hpieces
        obtain ⟨-, _, rfl, hday⟩ := Text.pieces_eq_cons_cons_iff.mp hmonthDay
        obtain ⟨-, rfl⟩ := Text.pieces_eq_singleton_iff.mp hday
        exact ⟨year, month, _, rfl, hread.mp h⟩
    · cases h
  · rintro ⟨year, month, day, rfl, hyear, hmonth, hday⟩
    rw [Text.pieces_append (hyear.not_mem rfl), Text.pieces_append (hmonth.not_mem rfl),
      Text.pieces_of_not_mem (hday.not_mem rfl)]
    exact hread.mpr ⟨hyear, hmonth, hday⟩

/-- **Parts of a year** are read exactly if the grammar has them, months and weeks with their own
marks and limits. -/
theorem isSome_yearPartKey?_iff {m : Char} (hm : m.isDigit = false) (hlast : last ≤ maxNumber) :
    (yearPartKey? (m :: mark) last s).isSome = true ↔ IsYearPart (m :: mark) last s := by
  have hread {year part : List Char} :
      (do return Float.ofNat (← number? year) * 100.0 + Float.ofNat (← numberIn? 1 last part) :
        Option Float).isSome = true ↔ Field 0 maxNumber year ∧ Field 1 last part := by
    rw [← isSome_number?_iff, ← isSome_numberIn?_iff hlast]
    cases number? year <;> cases numberIn? 1 last part <;> simp
  unfold yearPartKey?
  constructor
  · intro h
    cases hcut : cutAtMark? (m :: mark) s with
    | none => rw [hcut] at h; cases h
    | some cut =>
        rw [hcut] at h
        exact ⟨cut.1, cut.2, eq_of_cutAtMark? hcut, hread.mp h⟩
  · rintro ⟨year, part, rfl, hfields⟩
    rw [cutAtMark?_append (hfields.1.not_mem hm)]
    exact hread.mpr hfields

section time

variable {h m sec : List Char} {more : List (List Char)}

/-- A time is read exactly if its hour and its minute are fields and its seconds are read. -/
private theorem isSome_time_iff {seconds : Option Float} :
    (do let v ← seconds
        return { hour := ← numberIn? 0 23 h, minute := ← numberIn? 0 59 m, seconds := v } :
      Option Time).isSome = true ↔ seconds.isSome = true ∧ Field 0 23 h ∧ Field 0 59 m := by
  rw [← isSome_numberIn?_iff (by decide), ← isSome_numberIn?_iff (by decide)]
  cases seconds <;> cases numberIn? 0 23 h <;> cases numberIn? 0 59 m <;> simp

/-- A time without seconds is read exactly if its two parts are fields. -/
theorem Time.isSome_ofText?_of_two (hpieces : Text.pieces (· == ':') s = [h, m]) :
    (Time.ofText? s).isSome = true ↔ Field 0 23 h ∧ Field 0 59 m := by
  unfold Time.ofText?
  rw [hpieces]
  exact isSome_time_iff.trans (and_iff_right rfl)

/-- Of the pieces between colons the first three are read. -/
theorem Time.isSome_ofText?_of_more
    (hpieces : Text.pieces (· == ':') s = h :: m :: sec :: more) :
    (Time.ofText? s).isSome = true ↔ IsSeconds sec ∧ Field 0 23 h ∧ Field 0 59 m := by
  unfold Time.ofText?
  rw [hpieces, ← isSome_seconds?_iff]
  exact isSome_time_iff

/-- A time with seconds has three parts, and what follows a further colon is a fourth. -/
theorem IsFullTime.exists_pieces (hs : IsFullTime s) : ∃ h m sec, Field 0 23 h ∧ Field 0 59 m ∧
    IsSeconds sec ∧ Text.pieces (· == ':') s = [h, m, sec] ∧
      ∀ rest, Text.pieces (· == ':') (s ++ ':' :: rest) =
        h :: m :: sec :: Text.pieces (· == ':') rest := by
  obtain ⟨h, m, sec, rfl, hh, hm, hsec⟩ := hs
  refine ⟨h, m, sec, hh, hm, hsec, ?_, fun rest => ?_⟩
  · rw [Text.pieces_append (hh.not_mem rfl), Text.pieces_append (hm.not_mem rfl),
      Text.pieces_of_not_mem hsec.colon_not_mem]
  · rw [List.append_assoc, List.cons_append, List.append_assoc, List.cons_append,
      Text.pieces_append (hh.not_mem rfl), Text.pieces_append (hm.not_mem rfl),
      Text.pieces_append hsec.colon_not_mem]

/-- Behind the seconds nothing is read. -/
theorem IsFullTime.ofText?_append (hs : IsFullTime s) (rest : List Char) :
    Time.ofText? (s ++ ':' :: rest) = Time.ofText? s := by
  obtain ⟨h, m, sec, -, -, -, hpieces, hmore⟩ := hs.exists_pieces
  unfold Time.ofText?
  rw [hpieces, hmore]

end time

/-- **A time is read if it starts like one.** -/
theorem Time.isSome_ofText?_iff : (Time.ofText? s).isSome = true ↔ StartsWithTime s := by
  have hfull {time : List Char} (htime : IsFullTime time) :
      (Time.ofText? time).isSome = true := by
    obtain ⟨h, m, sec, hh, hm, hsec, hpieces, -⟩ := htime.exists_pieces
    exact (Time.isSome_ofText?_of_more hpieces).mpr ⟨hsec, hh, hm⟩
  constructor
  · intro hread
    match hpieces : Text.pieces (· == ':') s with
    | [] | [_] =>
        unfold Time.ofText? at hread
        rw [hpieces] at hread
        cases hread
    | [hour, minute] =>
        have hfields := (Time.isSome_ofText?_of_two hpieces).mp hread
        obtain ⟨-, _, rfl, hminute⟩ := Text.pieces_eq_cons_cons_iff.mp hpieces
        obtain ⟨-, rfl⟩ := Text.pieces_eq_singleton_iff.mp hminute
        exact Or.inl (Or.inl ⟨hour, _, rfl, hfields⟩)
    | hour :: minute :: seconds :: more =>
        obtain ⟨hseconds, hhour, hminute⟩ := (Time.isSome_ofText?_of_more hpieces).mp hread
        obtain ⟨-, _, rfl, hrest⟩ := Text.pieces_eq_cons_cons_iff.mp hpieces
        obtain ⟨-, _, rfl, hrest'⟩ := Text.pieces_eq_cons_cons_iff.mp hrest
        have htime : IsFullTime (hour ++ ':' :: (minute ++ ':' :: seconds)) :=
          ⟨hour, minute, seconds, rfl, hhour, hminute, hseconds⟩
        cases more with
        | nil =>
            obtain ⟨-, rfl⟩ := Text.pieces_eq_singleton_iff.mp hrest'
            exact Or.inl (Or.inr htime)
        | cons w ws =>
            obtain ⟨-, rest, rfl, -⟩ := Text.pieces_eq_cons_cons_iff.mp hrest'
            exact Or.inr ⟨_, rest, by simp, htime⟩
  · rintro ((⟨hour, minute, rfl, hhour, hminute⟩ | htime) | ⟨time, rest, rfl, htime⟩)
    · refine (Time.isSome_ofText?_of_two ?_).mpr ⟨hhour, hminute⟩
      rw [Text.pieces_append (hhour.not_mem rfl), Text.pieces_of_not_mem (hminute.not_mem rfl)]
    · exact hfull htime
    · rw [htime.ofText?_append]
      exact hfull htime

/-- A date is written with digits and hyphens. -/
theorem IsDate.not_mem {c : Char} (hs : IsDate s) (hc : c.isDigit = false) (hne : c ≠ '-') :
    c ∉ s := by
  obtain ⟨year, month, day, rfl, hyear, hmonth, hday⟩ := hs
  simp only [List.mem_append, List.mem_cons, not_or]
  exact ⟨hyear.not_mem hc, hne, hmonth.not_mem hc, hne, hday.not_mem hc⟩

/-- **Local moments** are read exactly if they are a date and the beginning of a time.  The date
holds neither of the two characters that may part them, so the cut is behind it. -/
theorem isSome_localKey?_iff : (localKey? s).isSome = true ↔
    ∃ date c time, s = date ++ c :: time ∧ (c = 'T' ∨ c = ' ') ∧ IsDate date ∧
      StartsWithTime time := by
  have hread {date time : List Char} :
      (do return (← Date.ofText? date).key * 100000.0 + (← Time.ofText? time).key :
        Option Float).isSome = true ↔ IsDate date ∧ StartsWithTime time := by
    rw [← Date.isSome_ofText?_iff, ← Time.isSome_ofText?_iff]
    cases Date.ofText? date <;> cases Time.ofText? time <;> simp
  unfold localKey?
  constructor
  · intro h
    cases hcut : Text.cutAt? (fun c => c == 'T' || c == ' ') s with
    | none => rw [hcut] at h; cases h
    | some cut =>
        rw [hcut] at h
        obtain ⟨c, hc, rfl⟩ := Text.exists_of_cutAt?_eq_some hcut
        exact ⟨cut.1, c, cut.2, rfl, by simpa using hc, hread.mp h⟩
  · rintro ⟨date, c, time, rfl, hc, hdate, htime⟩
    have hT : 'T' ∉ date := hdate.not_mem rfl (by decide)
    have hspace : ' ' ∉ date := hdate.not_mem rfl (by decide)
    rw [Text.cutAt?_append (fun d hd => ?_) (by simpa using hc)]
    · exact hread.mpr ⟨hdate, htime⟩
    · rw [Bool.or_eq_false_iff, beq_eq_false_iff_ne, beq_eq_false_iff_ne]
      exact ⟨ne_of_mem_of_not_mem hd hT, ne_of_mem_of_not_mem hd hspace⟩

/-! ### Result -/

/-- **Which values have a key.** -/
structure KeyGrammar (value : String) : Prop where
  date : (key? .date value).isSome = true ↔ IsDate value.toList
  month : (key? .month value).isSome = true ↔ IsYearPart ['-'] 12 value.toList
  week : (key? .week value).isSome = true ↔ IsYearPart ['-', 'W'] 53 value.toList
  /-- Behind a time with seconds and one more colon anything may stand. -/
  time : (key? .time value).isSome = true ↔ StartsWithTime value.toList
  /-- What stands there does not change the key. -/
  leftOver : ∀ time rest, value.toList = time.toList ++ ':' :: rest → IsFullTime time.toList →
    key? .time value = key? .time time
  datetimeLocal : (key? .datetimeLocal value).isSome = true ↔
    ∃ date c time, value.toList = date ++ c :: time ∧ (c = 'T' ∨ c = ' ') ∧ IsDate date ∧
      StartsWithTime time

/-- **Every value is read by this grammar.** -/
theorem keyGrammar (value : String) : KeyGrammar value where
  date := by
    rw [key?, Option.isSome_map, Date.isSome_ofText?_iff]
  month := isSome_yearPartKey?_iff rfl (by decide)
  week := isSome_yearPartKey?_iff rfl (by decide)
  time := by
    rw [key?, Option.isSome_map, Time.isSome_ofText?_iff]
  leftOver time rest hvalue htime := by
    rw [key?, key?, hvalue, htime.ofText?_append]
  datetimeLocal := isSome_localKey?_iff

/-- A day is in range for every month. -/
example : (key? .date "2023-02-31").isSome = true := by
  decide +kernel

end Moment

end Selectors

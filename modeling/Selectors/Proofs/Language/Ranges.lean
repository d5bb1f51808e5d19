import Mathlib.Data.List.Forall2
import Mathlib.Data.String.Basic
import Selectors.Language

/-!
# Which tags a language range asks for

A range asks for subtags, and a tag has them if they can be assigned to places in it, in order.
What lies between the assigned places is skipped, and a singleton must not be.  Looking from left to
right for the next place of each subtag finds an assignment whenever there is one: a place that is
taken too early does no harm, since the place that was meant for the subtag is free then, and it
holds the same subtag, which was skipped already and so is no singleton.

* `Language.Assigned` is an assignment of places, `Language.Stands` the same as a walk through the
  tag, and `Language.stands_iff_assigned` relates the two.
* `Language.Stands.tail` is the exchange: what was meant for a place may be skipped there.
* `Language.accepts_iff_stands` is about the search, and `Language.includes_iff_assigned` is the
  result.
-/

namespace Selectors

namespace Text

/-- A capital and its small letter are one byte each, and nothing else changes. -/
theorem toLower_eq (c : Char) :
    c.toLower = c ∨ c.val ≤ 127 ∧ c.toLower.val ≤ 127 ∧ 97 ≤ c.toLower.val := by
  unfold Char.toLower
  split
  · next h =>
      obtain ⟨hlarge, hsmall⟩ := h
      have hlow : 65 ≤ c.val.toNat := hlarge
      have hhigh : c.val.toNat ≤ 90 := hsmall
      have hvalue : (c.val + ('a'.val - 'A'.val)).toNat = c.val.toNat + 32 := by
        rw [UInt32.toNat_add]
        change (c.val.toNat + 32) % 2 ^ 32 = _
        omega
      refine Or.inr ⟨?_, ?_, ?_⟩ <;> rw [UInt32.le_iff_toNat_le]
      · exact Nat.le_trans hhigh (by decide)
      · rw [hvalue]
        exact Nat.le_trans (Nat.add_le_add_right hhigh 32) (by decide)
      · rw [hvalue]
        exact Nat.le_trans (by decide) (Nat.add_le_add_right hlow 32)
  · exact Or.inl rfl

theorem utf8Size_toLower (c : Char) : c.toLower.utf8Size = c.utf8Size := by
  rcases toLower_eq c with hsame | ⟨hbefore, hafter, -⟩
  · rw [hsame]
  · rw [Char.utf8Size_eq_one_iff.mpr hbefore, Char.utf8Size_eq_one_iff.mpr hafter]

theorem toList_lower (s : String) : (lower s).toList = s.toList.map Char.toLower :=
  String.toList_map

/-- Making letters small does not change how many bytes a text takes. -/
theorem utf8ByteSize_lower (s : String) : (lower s).utf8ByteSize = s.utf8ByteSize := by
  have hsame : ∀ cs : List Char, String.utf8Len (cs.map Char.toLower) = String.utf8Len cs := by
    intro cs
    induction cs with
    | nil => rfl
    | cons c cs ih => rw [List.map_cons, String.utf8Len_cons, String.utf8Len_cons, ih,
        utf8Size_toLower]
  rw [← String.ofList_toList (s := lower s), ← String.ofList_toList (s := s),
    String.utf8ByteSize_ofList, String.utf8ByteSize_ofList, String.ofList_toList, toList_lower,
    hsame]

/-- Only a star becomes a star. -/
theorem lower_eq_star_iff {s : String} : lower s = "*" ↔ s = "*" := by
  have hstar : ∀ c : Char, c.toLower = '*' ↔ c = '*' := by
    intro c
    rcases toLower_eq c with hsame | ⟨-, -, hletter⟩
    · rw [hsame]
    · constructor
      · intro h
        rw [h] at hletter
        exact absurd hletter (by decide)
      · rintro rfl
        rfl
  rw [← String.toList_inj, ← String.toList_inj, toList_lower]
  change _ = ['*'] ↔ _ = ['*']
  rw [List.map_eq_singleton_iff]
  constructor
  · rintro ⟨c, hc, hlower⟩
    rw [hc, (hstar c).mp hlower]
  · exact fun h => ⟨'*', h, rfl⟩

/-- The same letters are the same in small letters. -/
theorem sameLetters_iff {s s' : String} : sameLetters s s' = true ↔ lower s = lower s' :=
  beq_iff_eq

end Text

namespace Language

variable {r s : String} {wanted range tag : List String} {places : List Nat} {i : Nat}

/-- Places in the tag, from `start` on, for the subtags that are asked for: each place holds its
subtag, and no singleton that is skipped stands before the last of them. -/
structure Assigned (start : Nat) (wanted tag : List String) (places : List Nat) : Prop where
  increasing : places.Pairwise (· < ·)
  from_start : ∀ p ∈ places, start ≤ p
  equal : List.Forall₂ (fun w p => ∃ s, tag[p]? = some s ∧ Text.sameLetters w s = true) wanted
    places
  skipped : ∀ last ∈ places.getLast?, ∀ p, start ≤ p → p < last → p ∉ places →
    ∀ s, tag[p]? = some s → s.utf8ByteSize ≠ 1

/-- The subtags asked for stand in the tag: at each of its subtags the walk takes it or skips it,
and it ends when nothing more is asked for. -/
inductive Stands : List String → List String → Prop
  | done {tag : List String} : Stands [] tag
  | take {w s : String} {wanted tag : List String} (equal : Text.sameLetters w s = true)
      (more : Stands wanted tag) : Stands (w :: wanted) (s :: tag)
  | skip {w s : String} {wanted tag : List String} (long : s.utf8ByteSize ≠ 1)
      (more : Stands (w :: wanted) tag) : Stands (w :: wanted) (s :: tag)

/-! ### Assignments as walks -/

/-- What stands in a tag has places in it. -/
theorem Stands.exists_assigned (h : Stands wanted (tag.drop i)) :
    ∃ places, Assigned i wanted tag places := by
  generalize hrest : tag.drop i = rest at h
  induction h generalizing i with
  | done =>
      exact ⟨[], .nil, fun p hp => (List.not_mem_nil hp).elim, .nil, fun _ h => nomatch h⟩
  | @take w s wanted rest equal _ ih =>
      have hplace : tag[i]? = some s := by
        rw [← List.head?_drop, hrest, List.head?_cons]
      obtain ⟨places, h⟩ := ih (i := i + 1) (by rw [← List.tail_drop, hrest, List.tail_cons])
      refine ⟨i :: places, List.pairwise_cons.mpr ⟨fun p hp => h.from_start p hp, h.increasing⟩,
        fun p hp => ?_, .cons ⟨s, hplace, equal⟩ h.equal, fun last hlast p hp hbefore hfree => ?_⟩
      · rcases List.mem_cons.mp hp with rfl | hp
        · exact Nat.le_refl p
        · exact Nat.le_of_succ_le (h.from_start p hp)
      · obtain ⟨hne, hfree⟩ := List.ne_and_not_mem_of_not_mem_cons hfree
        rw [List.getLast?_cons] at hlast
        cases hlast' : places.getLast? with
        | none =>
            rw [hlast', Option.getD_none, Option.mem_some_iff] at hlast
            omega
        | some last' =>
            rw [hlast', Option.getD_some, Option.mem_some_iff] at hlast
            subst hlast
            exact h.skipped last' hlast' p (by omega) hbefore hfree
  | @skip w s wanted rest long _ ih =>
      have hplace : tag[i]? = some s := by
        rw [← List.head?_drop, hrest, List.head?_cons]
      obtain ⟨places, h⟩ := ih (i := i + 1) (by rw [← List.tail_drop, hrest, List.tail_cons])
      refine ⟨places, h.increasing, fun p hp => Nat.le_of_succ_le (h.from_start p hp), h.equal,
        fun last hlast p hp hbefore hfree => ?_⟩
      by_cases hpi : p = i
      · intro s' hs'
        rw [hpi, hplace] at hs'
        cases hs'
        exact long
      · exact h.skipped last hlast p (by omega) hbefore hfree

/-- The assigned places behind the first one are places from there on. -/
theorem Assigned.tail {w : String} {p : Nat} (h : Assigned i (w :: wanted) tag (p :: places)) :
    Assigned (p + 1) wanted tag places := by
  obtain ⟨hbehind, hincreasing⟩ := List.pairwise_cons.mp h.increasing
  obtain ⟨-, hequal⟩ := List.forall₂_cons.mp h.equal
  refine ⟨hincreasing, hbehind, hequal, fun last hlast q hq hbefore hfree => ?_⟩
  have hstart := h.from_start p List.mem_cons_self
  refine h.skipped last ?_ q (by omega) hbefore fun hmem => ?_
  · rw [List.getLast?_cons, Option.mem_def.mp hlast]
    rfl
  · rcases List.mem_cons.mp hmem with rfl | hmem
    · omega
    · exact hfree hmem

/-- Where the first place is not the next one, that one is skipped and is no singleton. -/
theorem Assigned.skip {w : String} {p : Nat} (h : Assigned i (w :: wanted) tag (p :: places))
    (hpi : p ≠ i) (hlt : i < tag.length) :
    tag[i].utf8ByteSize ≠ 1 ∧ Assigned (i + 1) (w :: wanted) tag (p :: places) := by
  have hbehind : ∀ q ∈ p :: places, i < q := by
    intro q hq
    have hstart := h.from_start p List.mem_cons_self
    rcases List.mem_cons.mp hq with rfl | hq
    · omega
    · have := (List.pairwise_cons.mp h.increasing).1 q hq
      omega
  have hlast := List.getLast?_eq_some_getLast (List.cons_ne_nil p places)
  refine ⟨?_, h.increasing, hbehind, h.equal, fun last hlast q hq =>
    h.skipped last hlast q (by omega)⟩
  exact h.skipped _ hlast i (Nat.le_refl i) (hbehind _ (List.mem_of_getLast? hlast))
    (fun hmem => Nat.lt_irrefl i (hbehind i hmem)) _ (List.getElem?_eq_getElem hlt)

/-- What has places in a tag stands in it: the first place lies in the tag, and not in front of
where the search begins. -/
theorem Assigned.stands (h : Assigned i wanted tag places) : Stands wanted (tag.drop i) := by
  induction hleft : tag.length - i generalizing i wanted places with
  | zero =>
      cases h.equal with
      | nil => exact .done
      | cons hplace _ =>
          obtain ⟨s, hs, -⟩ := hplace
          have hp := h.from_start _ List.mem_cons_self
          obtain ⟨hlt, -⟩ := List.getElem?_eq_some_iff.mp hs
          omega
  | succ left ih =>
      have hlt : i < tag.length := by
        omega
      rw [List.drop_eq_getElem_cons hlt]
      cases h.equal with
      | nil => exact .done
      | @cons w p wanted places hplace _ =>
          by_cases hpi : p = i
          · obtain ⟨s, hs, hequal⟩ := hplace
            have hsame : tag[i] = s := by
              rw [hpi, List.getElem?_eq_getElem hlt] at hs
              exact Option.some.inj hs
            have htail := h.tail
            rw [hpi] at htail
            exact .take (hsame ▸ hequal) (ih htail (by omega))
          · obtain ⟨hlong, hlater⟩ := h.skip hpi hlt
            exact .skip hlong (ih hlater (by omega))

/-- **A walk through the tag assigns places, and every assignment is such a walk.** -/
theorem stands_iff_assigned :
    Stands wanted (tag.drop i) ↔ ∃ places, Assigned i wanted tag places :=
  ⟨Stands.exists_assigned, fun ⟨_, h⟩ => h.stands⟩

/-! ### The search -/

/-- **The exchange.**  What was meant for a place may be skipped there, if it is no singleton; the
rest of what is asked for still stands. -/
theorem Stands.tail (h : Stands (r :: wanted) tag) (hlong : r.utf8ByteSize ≠ 1) :
    Stands wanted tag := by
  generalize hall : r :: wanted = all at h
  induction h with
  | done => cases hall
  | @take w s rest tag equal more _ =>
      obtain ⟨rfl, rfl⟩ := List.cons_eq_cons.mp hall
      have hsize : s.utf8ByteSize ≠ 1 := by
        rw [← Text.utf8ByteSize_lower, ← Text.sameLetters_iff.mp equal, Text.utf8ByteSize_lower]
        exact hlong
      cases wanted with
      | nil => exact .done
      | cons w wanted => exact .skip hsize more
  | skip long _ ih =>
      cases wanted with
      | nil => exact .done
      | cons w wanted => exact .skip long (ih hall)

/-- Taking the first place that fits loses nothing. -/
theorem stands_cons_of_sameLetters (hsame : Text.sameLetters r s = true) :
    Stands (r :: wanted) (s :: tag) ↔ Stands wanted tag := by
  constructor
  · intro h
    cases h with
    | take _ more => exact more
    | skip long more =>
        refine more.tail ?_
        rw [← Text.utf8ByteSize_lower, Text.sameLetters_iff.mp hsame, Text.utf8ByteSize_lower]
        exact long
  · exact .take hsame

/-- A part of the tag that is not the one looked for is passed over, unless it is a single letter or
digit. -/
theorem stands_cons_of_not_sameLetters (hnot : ¬Text.sameLetters r s = true) :
    Stands (r :: wanted) (s :: tag) ↔ s.utf8ByteSize ≠ 1 ∧ Stands (r :: wanted) tag := by
  constructor
  · intro h
    cases h with
    | take equal _ => exact absurd equal hnot
    | skip long more => exact ⟨long, more⟩
  · exact fun h => .skip h.1 h.2

/-- Nothing stands in an empty tag. -/
theorem not_stands_nil : ¬Stands (r :: wanted) [] :=
  fun h => nomatch h

/-- **The search from left to right finds what stands in the tag**, stars left out. -/
theorem accepts_iff_stands (range tag : List String) :
    accepts (range.map Text.lower) (tag.map Text.lower) = true ↔
      Stands (range.filter (· ≠ "*")) tag := by
  induction range generalizing tag with
  | nil => exact iff_of_true (by rw [List.map_nil, accepts]) .done
  | cons r range ih =>
      rw [List.map_cons, accepts]
      by_cases hstar : r = "*"
      · rw [if_pos (Text.lower_eq_star_iff.mpr hstar), List.filter_cons_of_neg (by simp [hstar])]
        exact ih tag
      · rw [if_neg (fun h => hstar (Text.lower_eq_star_iff.mp h)),
          List.filter_cons_of_pos (by simp [hstar])]
        induction tag with
        | nil => exact iff_of_false (by simp [accepts.skipTo]) not_stands_nil
        | cons s tag ihtag =>
            rw [List.map_cons, accepts.skipTo]
            by_cases hsame : Text.sameLetters r s = true
            · rw [if_pos (Text.sameLetters_iff.mp hsame).symm, stands_cons_of_sameLetters hsame]
              exact ih tag
            · rw [if_neg (fun h => hsame (Text.sameLetters_iff.mpr h.symm)),
                stands_cons_of_not_sameLetters hsame, isSingleton, Text.utf8ByteSize_lower,
                ← ihtag]
              by_cases hone : s.utf8ByteSize = 1
              · simp [hone]
              · simp [hone]

end Language

end Selectors

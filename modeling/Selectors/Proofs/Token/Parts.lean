import Selectors.Proofs.Token.Cutting
import Selectors.Proofs.Token.Splitting

/-!
# Reading a part of a text by itself

The text of a run of tokens runs from the start of the first to the end of the last, with the
comments between them.  Read by itself it gives the same tokens, moved to where it begins, if
nothing was torn apart at its ends.  The members of a list are such runs: a comma, the end of the
text or whitespace stands at either end of them.

* `Token.Normal` texts are those that normalising leaves alone.
* `TokenStream.PartAt` relates what is read from the text of a run to what was read around it.
* `TokenStream.exists_part` is about runs, `TokenStream.exists_part_of_member` about members.
-/

namespace Selectors

namespace Token

/-- No character stands in the text that normalising replaces. -/
def Normal (s : List Char) : Prop :=
  ∀ c ∈ s, c ≠ '\r' ∧ c ≠ '\x0c' ∧ c ≠ '\x00'

/-- A text that was normalized is normal. -/
theorem normal_normalize (s : List Char) : Normal (normalize s) := by
  fun_induction normalize s with
  | case1 => exact fun _ hc => absurd hc List.not_mem_nil
  | case2 r ih =>
      intro c hc
      rcases List.mem_cons.mp hc with rfl | hc
      · decide
      · exact ih c hc
  | case3 d r _ ih =>
      intro c hc
      rcases List.mem_cons.mp hc with rfl | hc
      · split
        · decide
        · rename_i hline
          split
          · decide
          · rename_i hzero
            simp only [Bool.or_eq_true, beq_iff_eq, not_or] at hline hzero
            exact ⟨hline.1, hline.2, hzero⟩
      · exact ih c hc

/-- A normal text is left as it is. -/
theorem normalize_of_normal {s : List Char} (h : Normal s) : normalize s = s := by
  fun_induction normalize s with
  | case1 => rfl
  | case2 r ih => exact absurd rfl (h '\r' (List.mem_cons_self ..)).1
  | case3 d r _ ih =>
      obtain ⟨hreturn, hfeed, hzero⟩ := h d (List.mem_cons_self ..)
      rw [ih fun c hc => h c (List.mem_cons_of_mem d hc)]
      simp [hreturn, hfeed, hzero]

@[simp]
theorem moved_kind (d : Nat) (t : Token) : (t.moved d).kind = t.kind := rfl

theorem map_kind_moved (d : Nat) (ts : List Token) : (ts.map (moved d)).map kind = ts.map kind := by
  rw [List.map_map]
  rfl

/-- Whitespace around a run does not depend on where the run stands. -/
theorem Bare.of_moved {d : Nat} {ts : List Token} (h : Bare (ts.map (moved d))) : Bare ts where
  first t ht := h.first (t.moved d) (by rw [List.head?_map]; exact Option.mem_map_of_mem _ ht)
  last t ht := h.last (t.moved d) (by rw [List.getLast?_map]; exact Option.mem_map_of_mem _ ht)

end Token

namespace TokenStream

open Token

variable {stream part : TokenStream} {text : String} {before ts after m : List Token} {d : Nat}

/-- What the text of a run of tokens gives when it is read by itself: the same tokens, from a part
of the text that begins at `d`. -/
structure PartAt (stream : TokenStream) (ts : List Token) (part : TokenStream) (d : Nat) :
    Prop where
  tokens : ts = part.tokens.map (moved d)
  inside : ∀ t ∈ part.tokens, t.start < t.stop ∧ t.stop ≤ part.source.length
  source : ∃ front back, stream.source = front ++ part.source ++ back ∧ front.length = d

/-- The text between two places within the part. -/
theorem PartAt.slice_eq (h : PartAt stream ts part d) (i : Nat) {j : Nat}
    (hj : j ≤ part.source.length) :
    slice stream.source (i + d) (j + d) = slice part.source i j := by
  obtain ⟨front, back, hsource, rfl⟩ := h.source
  have hdrop : stream.source.drop (i + front.length) = (part.source ++ back).drop i := by
    rw [hsource, List.append_assoc, Nat.add_comm, ← List.drop_drop, List.drop_left]
  have hlength : j + front.length - (i + front.length) = j - i := by
    omega
  rw [slice, slice, hdrop, hlength, List.drop_append, List.take_append_of_le_length]
  rw [List.length_drop]
  omega

/-- The text of a run of tokens within the part. -/
theorem PartAt.sliceOf_eq (h : PartAt stream ts part d) {us : List Token}
    (hus : ∀ u ∈ us, u.stop ≤ part.source.length) :
    sliceOf stream.source (us.map (moved d)) = sliceOf part.source us := by
  rw [sliceOf, sliceOf, List.head?_map, List.getLast?_map]
  cases hfirst : us.head? with
  | none => rfl
  | some first =>
      cases hlast : us.getLast? with
      | none => rfl
      | some last => exact h.slice_eq first.start (hus last (List.mem_of_getLast? hlast))

/-- **A run of tokens is read from its text**, if the text may be cut at its ends. -/
theorem exists_part (hts : (read text).tokens = before ++ ts ++ after) (hne : ts ≠ [])
    (hcut : Severed ts after) :
    ∃ d, PartAt (read text) ts (read ((read text).textOf ts)) d := by
  obtain ⟨t, ts, rfl⟩ := List.exists_cons_of_ne_nil hne
  obtain ⟨u, hu⟩ : ∃ u, (t :: ts).getLast? = some u := ⟨_, List.getLast?_cons⟩
  let source := normalize text.toList
  have hlex : lexFrom source 0 = before ++ t :: (ts ++ after) := by
    rw [← List.cons_append, ← List.append_assoc]
    exact hts
  have hbehind := lexFrom_drop hlex
  rw [Nat.sub_zero] at hbehind
  have hlast : u ∈ lexFrom (source.drop t.start) t.start := by
    rw [hbehind, ← List.cons_append]
    exact List.mem_append_left after (List.mem_of_getLast? hu)
  obtain ⟨hstart, hlength, hstop⟩ := lexFrom_bounds hlast
  rw [List.length_drop] at hstop
  let part := (source.drop t.start).take (u.stop - t.start)
  let rest := (source.drop t.start).drop (u.stop - t.start)
  have hparts : part ++ rest = source.drop t.start := List.take_append_drop _ _
  have hsize : part.length = u.stop - t.start := by
    rw [List.length_take, List.length_drop]
    omega
  have hread : lexFrom part t.start = t :: ts := by
    refine lexFrom_cut (v := rest) ?_ hcut (fun w hw => ?_) hne
    · rw [hparts, hbehind, List.cons_append]
    · rw [Option.mem_unique hw hu]
      omega
  have htokens : t :: ts = (lexFrom part 0).map (moved t.start) := by
    rw [← lexFrom_add, Nat.zero_add, hread]
  have hnormal : normalize part = part := by
    refine normalize_of_normal fun c hc => ?_
    exact normal_normalize text.toList c (List.mem_of_mem_drop (List.mem_of_mem_take hc))
  have htext : (read text).textOf (t :: ts) = String.ofList part := by
    rw [textOf, sliceOf, List.head?_cons, hu]
    rfl
  have hpart : read (String.ofList part) = { source := part, tokens := lexFrom part 0 } := by
    simp only [read, String.toList_ofList, hnormal, lex]
  rw [htext, hpart]
  refine ⟨t.start, htokens, fun w hw => ?_, ⟨source.take t.start, rest, ?_, ?_⟩⟩
  · have hinside := (lexFrom_bounds hw).2
    rw [Nat.zero_add] at hinside
    exact hinside
  · rw [List.append_assoc, hparts, List.take_append_drop]
    rfl
  · rw [List.length_take]
    omega

/-- **A member of a list is read from its text.**  A function that is the last token leaves a
bracket open, so the member is the last one. -/
theorem exists_part_of_member (h : ofText text = .ok stream) (hm : m ∈ splitList stream.tokens)
    (hne : trim m ≠ []) :
    ∃ part d, ofText (stream.textOf (trim m)) = .ok part ∧ PartAt stream (trim m) part d ∧
      splitList part.tokens = [part.tokens] ∧ trim part.tokens = part.tokens := by
  obtain ⟨hbalanced, rfl⟩ := ofText_eq_ok_iff.mp h
  obtain ⟨stack, hopen⟩ := exists_openAfter hbalanced
  obtain ⟨before, after, stack', hts, hinside, hundivided, hend⟩ := mem_splitList hopen hm
  obtain ⟨front, back, hmid, hfront, hback⟩ := trim_spec m
  have hopen' := openAfter_trim hinside
  have hcut : Severed (trim m) (back ++ after) := by
    refine ⟨fun t ht => allowed_of_openAfter hopen' ht, (bare_trim m).last, ?_⟩
    intro t ht name hkind u hu
    have hstack : stack' ≠ [] := by
      obtain ⟨hne', rfl⟩ := List.mem_getLast?_eq_getLast ht
      rw [← List.dropLast_append_getLast hne'] at hopen'
      exact openAfter_of_opens (b := .round) (by rw [hkind]; rfl) hopen'
    have hafter : after = [] := hend.resolve_right hstack
    rw [hafter, List.append_nil] at hu
    exact hback u hu
  have hts' : (read text).tokens = (before ++ front) ++ trim m ++ (back ++ after) := by
    rw [hts]
    nth_rewrite 1 [hmid]
    simp
  obtain ⟨d, hpart⟩ := exists_part hts' hne hcut
  have hkinds := (congrArg (List.map kind) hpart.tokens).trans (map_kind_moved d _)
  have hopened : openAfter [] (read ((read text).textOf (trim m))).tokens = some stack' := by
    rw [← openAfter_congr hkinds]
    exact hopen'
  refine ⟨_, d, ?_, hpart, splitFrom_of_undivided hopened ?_, trim_of_bare ?_⟩
  · rw [ofText, if_pos]
    rw [balanced_eq, hopened]
    rfl
  · exact (undivided_trim hundivided).congr hkinds
  · have hbare := bare_trim m
    rw [hpart.tokens] at hbare
    exact hbare.of_moved

end TokenStream

end Selectors

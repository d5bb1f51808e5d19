import Mathlib.Data.List.DropRight
import Mathlib.Data.Nat.Init
import Selectors.Token.Balance

/-!
# Members of a list

A list of selectors is split at the commas that stand outside all brackets.  The splitter counts
open brackets, the check keeps them on a stack.  Where the check accepts a run, a member is a part
of it that begins with no bracket open and goes to the next comma before which none is open again,
or to the end of the run.  So the check accepts the member by itself, and splitting it yields
nothing but the member.

* `Token.openAfter` is the stack of open brackets behind a run, `Token.balanced_eq` relates it to
  the check.
* `Token.Undivided` says that no comma divides a run.
* `Token.Members` says that a run is made up of its members and the commas between them, and
  `Token.members_splitList` that splitting finds them.
* `Token.mem_splitList` describes a member, `Token.trim_spec` what is left of it without the
  whitespace around it.
* `Token.depthBehind` is the count of the splitter, which `Token.splitFrom_depthBehind` reads off
  it.
-/

namespace Selectors

namespace TokenKind

/-- The open brackets behind a token; none where the check stops. -/
def nest (k : TokenKind) (stack : List Bracket) : Option (List Bracket) :=
  if k.forbidden then none
  else
    match k.opens?, k.closes? with
    | some b, _ => some (b :: stack)
    | none, none => some stack
    | none, some b => if stack.head? = some b then some stack.tail else none

/-- The check goes on behind a token that opens a bracket, that closes the innermost one, or that
is no bracket. -/
theorem nest_eq_some_iff {k : TokenKind} {stack stack' : List Bracket} :
    k.nest stack = some stack' ↔ k.forbidden = false ∧
      ((∃ b, k.opens? = some b ∧ stack' = b :: stack) ∨
        (∃ b, k.opens? = none ∧ k.closes? = some b ∧ stack = b :: stack') ∨
          (k.opens? = none ∧ k.closes? = none ∧ stack' = stack)) := by
  rw [nest]
  cases hforbidden : k.forbidden with
  | true => simp
  | false =>
      cases hopens : k.opens? with
      | some b => simp [eq_comm]
      | none =>
          cases hcloses : k.closes? with
          | none => simp [eq_comm]
          | some b =>
              cases stack with
              | nil => simp
              | cons top stack =>
                  by_cases htop : top = b
                  · simp [htop, eq_comm]
                  · simp [htop]

end TokenKind

namespace Token

/-- The brackets that a run leaves open, where `stack` holds those open before it. -/
def openAfter (stack : List Bracket) (ts : List Token) : Option (List Bracket) :=
  ts.foldlM (fun stack t => t.kind.nest stack) stack

variable {stack stack' : List Bracket} {ts before after m : List Token} {t c : Token}

@[simp]
theorem openAfter_cons :
    openAfter stack (t :: ts) = (t.kind.nest stack).bind fun stack => openAfter stack ts := rfl

theorem openAfter_append :
    openAfter stack (before ++ after) =
      (openAfter stack before).bind fun stack => openAfter stack after :=
  List.foldlM_append

theorem openAfter_cons_eq_some_iff :
    openAfter stack (t :: ts) = some stack' ↔
      ∃ stack₁, t.kind.nest stack = some stack₁ ∧ openAfter stack₁ ts = some stack' :=
  Option.bind_eq_some_iff

theorem openAfter_append_eq_some_iff :
    openAfter stack (before ++ after) = some stack' ↔
      ∃ stack₁, openAfter stack before = some stack₁ ∧ openAfter stack₁ after = some stack' := by
  rw [openAfter_append]
  exact Option.bind_eq_some_iff

/-- The check accepts a run if it gets behind it. -/
theorem balanced_eq (stack : List Bracket) (ts : List Token) :
    balanced stack ts = (openAfter stack ts).isSome := by
  induction ts generalizing stack with
  | nil => rfl
  | cons t ts ih =>
      rw [balanced, openAfter_cons, TokenKind.nest]
      split
      · rfl
      cases t.kind.opens? with
      | some b => exact ih (b :: stack)
      | none =>
          cases t.kind.closes? with
          | none => exact ih stack
          | some b =>
              cases stack with
              | nil => rfl
              | cons top stack =>
                  by_cases htop : top = b
                  · simp [htop, ih]
                  · simp [htop]

/-- A run that the check accepts leaves brackets open, or none. -/
theorem exists_openAfter (h : balanced stack ts = true) :
    ∃ stack', openAfter stack ts = some stack' := by
  rw [balanced_eq] at h
  exact Option.isSome_iff_exists.mp h

/-- Only the kinds of tokens count. -/
theorem openAfter_congr {ts' : List Token} (h : ts.map kind = ts'.map kind) :
    openAfter stack ts = openAfter stack ts' := by
  have hkinds : ∀ us : List Token, openAfter stack us =
      (us.map kind).foldlM (fun stack k => k.nest stack) stack := fun us => by
    rw [List.foldlM_map]
    rfl
  rw [hkinds, hkinds, h]

/-- A run that is accepted holds no token of a kind that no selector holds. -/
theorem allowed_of_openAfter (h : openAfter stack ts = some stack') (ht : t ∈ ts) :
    t.kind.forbidden = false := by
  induction ts generalizing stack with
  | nil => cases ht
  | cons u ts ih =>
      obtain ⟨stack₁, hu, hmore⟩ := openAfter_cons_eq_some_iff.mp h
      rcases List.mem_cons.mp ht with rfl | ht
      · exact (TokenKind.nest_eq_some_iff.mp hu).1
      · exact ih hmore ht

/-- Behind an opening token a bracket is open. -/
theorem openAfter_of_opens {b : Bracket} (hopens : t.kind.opens? = some b)
    (h : openAfter stack (ts ++ [t]) = some stack') : stack' ≠ [] := by
  obtain ⟨stack₁, -, hlast⟩ := openAfter_append_eq_some_iff.mp h
  rw [openAfter_cons, TokenKind.nest, hopens] at hlast
  split at hlast
  · cases hlast
  · cases hlast
    exact List.cons_ne_nil b stack₁

/-! ### Splitting -/

/-- No comma stands where no bracket is open. -/
def Undivided (stack : List Bracket) (ts : List Token) : Prop :=
  ∀ before c after, ts = before ++ c :: after → c.kind = .comma → openAfter stack before ≠ some []

/-- How many brackets the splitter takes to be open behind a token. -/
def depthAfter (k : TokenKind) (depth : Nat) : Nat :=
  if k.opens?.isSome then depth + 1 else if k.closes?.isSome then depth - 1 else depth

/-- What a token that parts no members does. -/
theorem splitFrom_cons {depth : Nat} (h : t.kind = .comma → depth ≠ 0) :
    splitFrom depth (t :: ts) = (splitFrom (depthAfter t.kind depth) ts).modifyHead (t :: ·) := by
  obtain ⟨k, i, j⟩ := t
  obtain ⟨m, ms, hmore⟩ :=
    List.exists_cons_of_ne_nil (splitFrom_ne_nil (depthAfter k depth) ts)
  rw [hmore, List.modifyHead_cons, splitFrom]
  · cases k <;>
      (dsimp [depthAfter, TokenKind.opens?, TokenKind.closes?] at hmore ⊢
       rw [hmore])
  · rintro hk rfl
    exact h hk rfl

/-- The splitter counts the brackets that are on the stack. -/
theorem depthAfter_of_nest {k : TokenKind} (h : k.nest stack = some stack') :
    depthAfter k stack.length = stack'.length := by
  obtain ⟨-, ⟨b, hopens, rfl⟩ | ⟨b, hopens, hcloses, rfl⟩ | ⟨hopens, hcloses, rfl⟩⟩ :=
    TokenKind.nest_eq_some_iff.mp h
  · simp [depthAfter, hopens]
  · simp [depthAfter, hopens, hcloses]
  · simp [depthAfter, hopens, hcloses]

/-- A comma outside all brackets divides the run. -/
theorem splitFrom_comma (h : t.kind = .comma) :
    splitFrom 0 (t :: ts) = [] :: splitFrom 0 ts := by
  simp [splitFrom, h]

/-- No member has more tokens than the list. -/
theorem length_le_of_mem_splitFrom {depth : Nat} (hm : m ∈ splitFrom depth ts) :
    m.length ≤ ts.length := by
  induction ts generalizing depth m with
  | nil =>
      obtain rfl : m = [] := List.mem_singleton.mp hm
      exact Nat.le_refl _
  | cons t ts ih =>
      by_cases hcomma : t.kind = .comma ∧ depth = 0
      · obtain ⟨hkind, rfl⟩ := hcomma
        rw [splitFrom_comma hkind] at hm
        rcases List.mem_cons.mp hm with rfl | hm
        · exact Nat.zero_le _
        · exact Nat.le_succ_of_le (ih hm)
      · rw [splitFrom_cons fun hkind hdepth => hcomma ⟨hkind, hdepth⟩] at hm
        obtain ⟨first, more, hmore⟩ :=
          List.exists_cons_of_ne_nil (splitFrom_ne_nil (depthAfter t.kind depth) ts)
        rw [hmore, List.modifyHead_cons] at hm
        rcases List.mem_cons.mp hm with rfl | hm
        · exact Nat.succ_le_succ (ih (hmore ▸ List.mem_cons_self))
        · exact Nat.le_succ_of_le (ih (hmore ▸ List.mem_cons_of_mem first hm))

theorem length_le_of_mem_splitList (hm : m ∈ splitList ts) : m.length ≤ ts.length :=
  length_le_of_mem_splitFrom hm

/-- A run that no comma divides has a first token that divides nothing, and neither does the
rest. -/
theorem Undivided.cons (h : Undivided stack (t :: ts)) (ht : t.kind.nest stack = some stack') :
    (t.kind = .comma → stack.length ≠ 0) ∧ Undivided stack' ts := by
  refine ⟨fun hcomma hnil => h [] t ts rfl hcomma ?_, ?_⟩
  · rw [List.eq_nil_of_length_eq_zero hnil]
    rfl
  rintro before c after rfl hc hopen
  refine h (t :: before) c after rfl hc ?_
  rw [openAfter_cons, ht]
  exact hopen

/-- Whether a comma divides a run is a matter of the kinds of its tokens. -/
theorem Undivided.congr {ts' : List Token} (hts : Undivided stack ts)
    (h : ts.map kind = ts'.map kind) : Undivided stack ts' := by
  rintro before c after rfl hc
  rw [List.map_append, List.map_cons] at h
  obtain ⟨before', rest, rfl, hbefore, hrest⟩ := List.map_eq_append_iff.mp h
  obtain ⟨c', after', rfl, hc', -⟩ := List.map_eq_cons_iff.mp hrest
  rw [← openAfter_congr hbefore]
  exact hts before' c' after' rfl (hc'.trans hc)

/-- A run that no comma divides is its only member. -/
theorem splitFrom_of_undivided (h : openAfter stack ts = some stack') (hts : Undivided stack ts) :
    splitFrom stack.length ts = [ts] := by
  induction ts generalizing stack with
  | nil => rfl
  | cons t ts ih =>
      obtain ⟨stack₁, ht, hmore⟩ := openAfter_cons_eq_some_iff.mp h
      obtain ⟨hcomma, hts'⟩ := hts.cons ht
      rw [splitFrom_cons hcomma, depthAfter_of_nest ht, ih hmore hts']
      rfl

/-- The first comma outside all brackets ends the first member. -/
theorem splitFrom_append (h : openAfter stack m = some []) (hm : Undivided stack m)
    (hc : c.kind = .comma) : splitFrom stack.length (m ++ c :: after) = m :: splitFrom 0 after := by
  induction m generalizing stack with
  | nil =>
      cases h
      exact splitFrom_comma hc
  | cons t m ih =>
      obtain ⟨stack₁, ht, hmore⟩ := openAfter_cons_eq_some_iff.mp h
      obtain ⟨hcomma, hm'⟩ := hm.cons ht
      rw [List.cons_append, splitFrom_cons hcomma, depthAfter_of_nest ht, ih hmore hm']
      rfl

/-- A run is undivided, or it has a first comma that divides it. -/
theorem undivided_or (h : openAfter stack ts = some stack') :
    Undivided stack ts ∨ ∃ m c after, ts = m ++ c :: after ∧ c.kind = .comma ∧
      openAfter stack m = some [] ∧ Undivided stack m := by
  induction ts generalizing stack with
  | nil =>
      refine Or.inl ?_
      rintro before c after heq
      cases before <;> cases heq
  | cons t ts ih =>
      by_cases hfirst : t.kind = .comma ∧ stack = []
      · obtain ⟨hcomma, rfl⟩ := hfirst
        refine Or.inr ⟨[], t, ts, rfl, hcomma, rfl, ?_⟩
        rintro before c after heq
        cases before <;> cases heq
      · obtain ⟨stack₁, ht, hmore⟩ := openAfter_cons_eq_some_iff.mp h
        have hcons : ∀ m, Undivided stack₁ m → Undivided stack (t :: m) := by
          rintro m hm before c after heq hc hopen
          cases before with
          | nil =>
              obtain ⟨rfl, -⟩ := List.cons_eq_cons.mp heq
              exact hfirst ⟨hc, Option.some.inj hopen⟩
          | cons u before =>
              obtain ⟨rfl, hm'⟩ := List.cons_eq_cons.mp heq
              rw [openAfter_cons, ht] at hopen
              exact hm before c after hm' hc hopen
        rcases ih hmore with hundivided | ⟨m, c, after, rfl, hc, hopen, hm⟩
        · exact Or.inl (hcons ts hundivided)
        · refine Or.inr ⟨t :: m, c, after, rfl, hc, ?_, hcons m hm⟩
          rw [openAfter_cons, ht]
          exact hopen

/-- **The members joined by their commas are the run.**  A comma stands between two of them where no
bracket is open, and within them only where one is. -/
inductive Members : List Token → List (List Token) → Prop
  | last {m : List Token} (hm : Undivided [] m) : Members m [m]
  | comma {m : List Token} {c : Token} {ts : List Token} {ms : List (List Token)}
      (hopen : openAfter [] m = some []) (hm : Undivided [] m) (hc : c.kind = .comma)
      (more : Members ts ms) : Members (m ++ c :: ts) (m :: ms)

/-- Splitting a run gives its members. -/
theorem members_splitList (h : openAfter [] ts = some stack) : Members ts (splitList ts) := by
  induction hsize : ts.length using Nat.strong_induction_on generalizing ts with
  | _ size ih =>
      rcases undivided_or h with hundivided | ⟨m, c, rest, rfl, hc, hopen, hm⟩
      · have hsplit : splitList ts = [ts] := splitFrom_of_undivided h hundivided
        rw [hsplit]
        exact .last hundivided
      · have hsplit : splitList (m ++ c :: rest) = m :: splitList rest :=
          splitFrom_append hopen hm hc
        have hrest : openAfter [] rest = some stack := by
          rw [openAfter_append, hopen, Option.bind_some, openAfter_cons, hc] at h
          exact h
        have hshorter : rest.length < size := by
          rw [← hsize, List.length_append, List.length_cons]
          omega
        rw [hsplit]
        exact .comma hopen hm hc (ih _ hshorter hrest rfl)

/-- **Members of a list.**  Each is a part of the run that begins with no bracket open, is not
divided itself, and goes to the end of the run or to where no bracket is open again. -/
theorem mem_splitList (h : openAfter [] ts = some stack) (hm : m ∈ splitList ts) :
    ∃ before after stack', ts = before ++ m ++ after ∧ openAfter [] m = some stack' ∧
      Undivided [] m ∧ (after = [] ∨ stack' = []) := by
  have hmembers := members_splitList h
  generalize splitList ts = ms at hm hmembers
  induction hmembers with
  | last hundivided =>
      obtain rfl := List.mem_singleton.mp hm
      exact ⟨[], [], stack, by simp, h, hundivided, Or.inl rfl⟩
  | @comma first c rest ms hopen hundivided hc _ ih =>
      rcases List.mem_cons.mp hm with rfl | hm
      · exact ⟨[], c :: rest, [], by simp, hopen, hundivided, Or.inr rfl⟩
      · have hrest : openAfter [] rest = some stack := by
          rw [openAfter_append, hopen, Option.bind_some, openAfter_cons, hc] at h
          exact h
        obtain ⟨before, after, stack', rfl, hpart⟩ := ih hrest hm
        exact ⟨first ++ c :: before, after, stack', by simp, hpart⟩

/-! ### The depth of the splitter -/

/-- How many brackets the splitter takes to be open behind a run. -/
def depthBehind (depth : Nat) (ts : List Token) : Nat :=
  ts.foldl (fun depth t => depthAfter t.kind depth) depth

/-- The last of some members goes on with the first of the others. -/
def continueWith (ms ns : List (List Token)) : List (List Token) :=
  ms.dropLast ++ ns.modifyHead (ms.getLast?.getD [] ++ ·)

theorem continueWith_cons {ms ns : List (List Token)} (hms : ms ≠ []) (m : List Token) :
    continueWith (m :: ms) ns = m :: continueWith ms ns := by
  obtain ⟨m', ms, rfl⟩ := List.exists_cons_of_ne_nil hms
  rfl

theorem continueWith_modifyHead {ms ns : List (List Token)} (hms : ms ≠ []) (t : Token) :
    continueWith (ms.modifyHead (t :: ·)) ns = (continueWith ms ns).modifyHead (t :: ·) := by
  obtain ⟨m, ms, rfl⟩ := List.exists_cons_of_ne_nil hms
  cases ms with
  | nil => cases ns <;> rfl
  | cons m' ms => rfl

/-- **The splitter carries nothing but its depth**: behind a part of a run it goes on from there. -/
theorem splitFrom_depthBehind (depth : Nat) (ts after : List Token) :
    splitFrom depth (ts ++ after) =
      continueWith (splitFrom depth ts) (splitFrom (depthBehind depth ts) after) := by
  induction ts generalizing depth with
  | nil =>
      obtain ⟨m, ms, hsplit⟩ := List.exists_cons_of_ne_nil (splitFrom_ne_nil depth after)
      change splitFrom depth after = continueWith [[]] (splitFrom depth after)
      rw [hsplit]
      rfl
  | cons t ts ih =>
      by_cases hcomma : t.kind = .comma ∧ depth = 0
      · obtain ⟨hkind, rfl⟩ := hcomma
        have hdepth : depthBehind 0 (t :: ts) = depthBehind 0 ts := by
          rw [depthBehind, List.foldl_cons, hkind]
          rfl
        rw [List.cons_append, splitFrom_comma hkind, splitFrom_comma hkind, ih, hdepth,
          continueWith_cons (splitFrom_ne_nil 0 ts)]
      · have hinside : t.kind = .comma → depth ≠ 0 := fun hkind hdepth => hcomma ⟨hkind, hdepth⟩
        rw [List.cons_append, splitFrom_cons hinside, splitFrom_cons hinside, ih,
          continueWith_modifyHead (splitFrom_ne_nil _ ts)]
        rfl

/-- **The depth is the number of open brackets.** -/
theorem depthBehind_of_openAfter (h : openAfter stack ts = some stack') :
    depthBehind stack.length ts = stack'.length := by
  induction ts generalizing stack with
  | nil =>
      cases h
      rfl
  | cons t ts ih =>
      obtain ⟨stack₁, ht, hmore⟩ := openAfter_cons_eq_some_iff.mp h
      rw [← ih hmore, ← depthAfter_of_nest ht]
      rfl

/-! ### Trimming -/

/-- A run with no whitespace at its ends. -/
structure Bare (ts : List Token) : Prop where
  first : ∀ t ∈ ts.head?, t.isWhitespace = false
  last : ∀ t ∈ ts.getLast?, t.isWhitespace = false

/-- Trimming drops whitespace at the front and at the end. -/
theorem trim_eq (ts : List Token) : trim ts = (ts.dropWhile isWhitespace).rdropWhile isWhitespace :=
  rfl

theorem length_trim_le (ts : List Token) : (trim ts).length ≤ ts.length :=
  Nat.le_trans (List.rdropWhile_prefix isWhitespace (ts.dropWhile isWhitespace)).length_le
    (List.dropWhile_suffix isWhitespace).length_le

/-- No whitespace stands around a trimmed run. -/
theorem bare_trim (ts : List Token) : Bare (trim ts) where
  first t ht := by
    obtain ⟨back, hback⟩ := List.rdropWhile_prefix isWhitespace (ts.dropWhile isWhitespace)
    rw [← trim_eq] at hback
    have hhead : (ts.dropWhile isWhitespace).head? = some t := by
      rw [← hback, List.head?_append, ht]
      rfl
    have hnot := List.head?_dropWhile_not isWhitespace ts
    rw [hhead] at hnot
    exact hnot
  last t ht := by
    obtain ⟨hne, rfl⟩ := List.mem_getLast?_eq_getLast ht
    exact Bool.eq_false_iff.mpr (List.rdropWhile_last_not isWhitespace _ hne)

/-- A run without whitespace around it is trimmed already. -/
theorem trim_of_bare (h : Bare ts) : trim ts = ts := by
  have hfirst : ts.dropWhile isWhitespace = ts := by
    cases ts with
    | nil => rfl
    | cons t ts => exact List.dropWhile_cons_of_neg (Bool.eq_false_iff.mp (h.first t rfl))
  rw [trim_eq, hfirst, List.rdropWhile_eq_self_iff]
  intro hne
  exact Bool.eq_false_iff.mp (h.last _ (List.getLast_mem_getLast? hne))

/-- What is trimmed off is whitespace, at either end. -/
theorem trim_spec (ts : List Token) :
    ∃ front back, ts = front ++ trim ts ++ back ∧ (∀ t ∈ front, t.isWhitespace = true) ∧
      ∀ t ∈ back, t.isWhitespace = true := by
  refine ⟨ts.takeWhile isWhitespace, (ts.dropWhile isWhitespace).rtakeWhile isWhitespace, ?_,
    fun t => List.mem_takeWhile_imp, fun t => List.mem_rtakeWhile_imp⟩
  rw [trim_eq, List.append_assoc, List.rdropWhile_append_rtakeWhile,
    List.takeWhile_append_dropWhile]

/-- A run without brackets leaves the open ones as they are. -/
theorem openAfter_of_nest (h : ∀ k ∈ ts.map kind, k.nest stack = some stack) :
    openAfter stack ts = some stack := by
  induction ts with
  | nil => rfl
  | cons t ts ih =>
      rw [openAfter_cons, h t.kind List.mem_cons_self]
      exact ih fun k hk => h k (List.mem_cons_of_mem t.kind hk)

/-- Whitespace leaves the open brackets as they are. -/
theorem openAfter_of_whitespace (h : ∀ t ∈ ts, t.isWhitespace = true) :
    openAfter stack ts = some stack := by
  refine openAfter_of_nest fun k hk => ?_
  obtain ⟨t, ht, rfl⟩ := List.mem_map.mp hk
  have hspace : t.kind = .whitespace := beq_iff_eq.mp (h t ht)
  rw [hspace]
  rfl

/-- Trimming a run opens and closes the same brackets. -/
theorem openAfter_trim (h : openAfter stack ts = some stack') :
    openAfter stack (trim ts) = some stack' := by
  obtain ⟨front, back, hts, hfront, hback⟩ := trim_spec ts
  rw [hts, openAfter_append, openAfter_append, openAfter_of_whitespace hfront,
    Option.bind_some] at h
  obtain ⟨stack₁, hmid, hlast⟩ := Option.bind_eq_some_iff.mp h
  rw [openAfter_of_whitespace hback] at hlast
  rw [hmid, hlast]

/-- No comma divides a trimmed run that none divided before. -/
theorem undivided_trim (h : Undivided stack ts) : Undivided stack (trim ts) := by
  obtain ⟨front, back, hts, hfront, hback⟩ := trim_spec ts
  rintro before c after heq hc hopen
  refine h (front ++ before) c (after ++ back) ?_ hc ?_
  · rw [hts, heq]
    simp
  · rw [openAfter_append, openAfter_of_whitespace hfront]
    exact hopen

end Token

namespace TokenStream

/-- A text is read where the check accepts its tokens. -/
theorem ofText_eq_ok_iff {text : String} {stream : TokenStream} :
    ofText text = .ok stream ↔
      Token.balanced [] (read text).tokens = true ∧ stream = read text := by
  unfold ofText
  dsimp only
  split
  · rename_i hbalanced
    simp [hbalanced, eq_comm]
  · rename_i hbalanced
    simp [hbalanced]

end TokenStream

end Selectors

import Selectors.Proofs.Compiled.Sound

/-!
# The way to a part

A compiled selector keeps no record of where a list stands, but each list stands in one place: the
way down to it from the whole selector passes the left side of slots and the arguments of `:host()`
in one order only.  A description of an arena tells that way for every part.

* `Route` is a way, and `Routes` gives each part one.
* `Routes.Describes` says that an arena is sound and that references go along the ways.
* `Routes.Describes.pushList`, `pushComplex` and `pushCompound` store one more part.
-/

namespace Selectors

/-! ### Ways -/

/-- What a way down into a selector passes, as far as it changes the shadow tree that `:host` is
asked in. -/
inductive Crossing where
  /-- From the right of a slot combinator to its left. -/
  | slot
  /-- Into the argument of `:host()` or `:host-context()`. -/
  | host
  deriving DecidableEq

/-- The crossings on the way down to a part, the last one first. -/
abbrev Route := List Crossing

namespace Route

/-- The way to what stands on the left of a combinator. -/
def across (r : Route) : Combinator → Route
  | .slot => .slot :: r
  | _ => r

/-- The way to what stands before a row of combinators. -/
def before (r : Route) (qs : List Combinator) : Route :=
  qs.foldr (fun q r => r.across q) r

/-- The way to the list of a test. -/
def into (r : Route) (s : SimpleSelector) : Route :=
  if s.asksHost then .host :: r else r

/-- The way to a place in front of two rows of combinators goes through one row and the other. -/
theorem before_append (r : Route) (qs qs' : List Combinator) :
    r.before (qs ++ qs') = (r.before qs').before qs :=
  List.foldr_append

/-- Without a slot the way stays the same. -/
theorem before_of_slotFree {qs : List Combinator} (hqs : Combinator.slot ∉ qs) (r : Route) :
    r.before qs = r := by
  induction qs with
  | nil => rfl
  | cons q qs ih =>
      rw [List.mem_cons, not_or] at hqs
      change (r.before qs).across q = r
      rw [ih hqs.2]
      cases q with
      | slot => exact absurd rfl hqs.1
      | _ => rfl

end Route

/-- A way for each part of an arena. -/
structure Routes where
  list : ListId → Route
  complex : ComplexId → Route
  compound : CompoundId → Route

namespace Routes

/-- In a row of compounds, of which the last has the way `r`, each has its own way. -/
def Covers (F : Routes) (r : Route) : CompoundId → List (Combinator × CompoundId) → Prop
  | c, [] => F.compound c = r
  | c, (q, d) :: more => F.compound c = r.before (q :: more.map Prod.fst) ∧ F.Covers r d more

/-- Without slots all compounds have the way of the last one. -/
theorem Covers.of_slotFree {F : Routes} {r : Route} {c : CompoundId}
    {joined : List (Combinator × CompoundId)} (h : F.Covers r c joined)
    (hslot : Combinator.slot ∉ joined.map Prod.fst) :
    ∀ d ∈ c :: joined.map Prod.snd, F.compound d = r := by
  induction joined generalizing c with
  | nil =>
      intro d hd
      rw [List.mem_singleton.mp hd]
      exact h
  | cons step more ih =>
      obtain ⟨q, b⟩ := step
      obtain ⟨hc, hmore⟩ := h
      intro d hd
      rcases List.mem_cons.mp hd with rfl | hd
      · rw [hc]
        exact Route.before_of_slotFree hslot r
      · exact ih hmore (fun hmem => hslot (List.mem_cons_of_mem q hmem)) d hd

/-- **A description of an arena**: references are sound and go along the ways. -/
structure Describes (F : Routes) (a : Arena) : Prop extends a.Sound where
  list : ∀ {l}, l.index < a.lists.size → ∀ c ∈ (a.list l).complexes, F.complex c = F.list l
  complex : ∀ {c}, c.index < a.complexes.size →
    F.Covers (F.complex c) (a.complex c).first (a.complex c).joined
  compound : ∀ {d}, d.index < a.compounds.size → ∀ s ∈ (a.compound d).simples,
    ∀ l, s.nestedList? = some l → F.list l = (F.compound d).into s

/-- The second ways are the first ones as far as parts are stored. -/
structure Keeps (F F' : Routes) (a : Arena) : Prop where
  list : ∀ {l : ListId}, l.index < a.lists.size → F'.list l = F.list l
  complex : ∀ {c : ComplexId}, c.index < a.complexes.size → F'.complex c = F.complex c
  compound : ∀ {d : CompoundId}, d.index < a.compounds.size → F'.compound d = F.compound d

variable {F F' : Routes} {a a' : Arena}

theorem Keeps.refl (F : Routes) (a : Arena) : F.Keeps F a :=
  ⟨fun _ => rfl, fun _ => rfl, fun _ => rfl⟩

theorem Keeps.trans {F'' : Routes} (h : F.Keeps F' a) (h' : F'.Keeps F'' a')
    (hgrows : a.Grows a') : F.Keeps F'' a where
  list hl := by rw [h'.list (Nat.lt_of_lt_of_le hl hgrows.lists), h.list hl]
  complex hc := by rw [h'.complex (Nat.lt_of_lt_of_le hc hgrows.complexes), h.complex hc]
  compound hd := by rw [h'.compound (Nat.lt_of_lt_of_le hd hgrows.compounds), h.compound hd]

/-- A chain that is covered stays covered. -/
theorem Covers.of_keeps (hkeeps : F.Keeps F' a) {r : Route} {c : CompoundId}
    {joined : List (Combinator × CompoundId)}
    (hstored : ∀ d ∈ c :: joined.map Prod.snd, d.index < a.compounds.size)
    (h : F.Covers r c joined) : F'.Covers r c joined := by
  induction joined generalizing c with
  | nil => exact (hkeeps.compound (hstored c List.mem_cons_self)).trans h
  | cons step more ih =>
      obtain ⟨q, d⟩ := step
      obtain ⟨hc, hmore⟩ := h
      exact ⟨(hkeeps.compound (hstored c List.mem_cons_self)).trans hc,
        ih (fun e he => hstored e (List.mem_cons_of_mem _ he)) hmore⟩

/-- A description goes on over a larger arena if the new parts fit. -/
theorem Describes.grow (h : F.Describes a) (hgrows : a.Grows a') (hkeeps : F.Keeps F' a)
    (hlists : ∀ l : ListId, a.lists.size ≤ l.index → l.index < a'.lists.size →
      (∀ c ∈ (a'.list l).complexes, c.index < a'.complexes.size ∧ F'.complex c = F'.list l) ∧
        (∀ inner, a'.Nests l inner → inner.index < l.index) ∧
          (a'.list l).containsHas = (a'.list l).complexes.any a'.complexBearsHas)
    (hcomplexes : ∀ c : ComplexId, a.complexes.size ≤ c.index → c.index < a'.complexes.size →
      a'.SoundComplex (a'.complex c) ∧
        F'.Covers (F'.complex c) (a'.complex c).first (a'.complex c).joined)
    (hcompounds : ∀ d : CompoundId, a.compounds.size ≤ d.index → d.index < a'.compounds.size →
      a'.SoundCompound (a'.compound d) ∧ ∀ s ∈ (a'.compound d).simples, ∀ l,
        s.nestedList? = some l → F'.list l = (F'.compound d).into s) :
    F'.Describes a' where
  lists {l} hl c hc := by
    by_cases hold : l.index < a.lists.size
    · rw [hgrows.list hold] at hc
      exact Nat.lt_of_lt_of_le (h.lists hold c hc) hgrows.complexes
    · exact ((hlists l (Nat.le_of_not_lt hold) hl).1 c hc).1
  complexes {c} hc := by
    by_cases hold : c.index < a.complexes.size
    · rw [hgrows.complex hold]
      exact (h.complexes hold).of_grows hgrows
    · exact (hcomplexes c (Nat.le_of_not_lt hold) hc).1
  compounds {d} hd := by
    by_cases hold : d.index < a.compounds.size
    · rw [hgrows.compound hold]
      exact (h.compounds hold).of_grows h.toSound hgrows
    · exact (hcompounds d (Nat.le_of_not_lt hold) hd).1
  smaller {l inner} hl hnests := by
    by_cases hold : l.index < a.lists.size
    · exact h.smaller hold (h.nests_of_grows hgrows hold hnests)
    · exact (hlists l (Nat.le_of_not_lt hold) hl).2.1 inner hnests
  containsHas {l} hl := by
    by_cases hold : l.index < a.lists.size
    · exact h.containsHas_of_grows hgrows hold
    · exact (hlists l (Nat.le_of_not_lt hold) hl).2.2
  list {l} hl c hc := by
    by_cases hold : l.index < a.lists.size
    · rw [hgrows.list hold] at hc
      rw [hkeeps.complex (h.lists hold c hc), hkeeps.list hold]
      exact h.list hold c hc
    · exact ((hlists l (Nat.le_of_not_lt hold) hl).1 c hc).2
  complex {c} hc := by
    by_cases hold : c.index < a.complexes.size
    · rw [hgrows.complex hold, hkeeps.complex hold]
      exact (h.complex hold).of_keeps hkeeps (h.complexes hold).compounds
    · exact (hcomplexes c (Nat.le_of_not_lt hold) hc).2
  compound {d} hd s hs l hl := by
    by_cases hold : d.index < a.compounds.size
    · rw [hgrows.compound hold] at hs
      rw [hkeeps.compound hold, hkeeps.list ((h.compounds hold).lists s hs l hl).1]
      exact h.compound hold s hs l hl
    · exact (hcompounds d (Nat.le_of_not_lt hold) hd).2 s hs l hl

/-! ### Storing one more part -/

/-- A list whose members are stored and have one way gets that way. -/
theorem Describes.pushList (h : F.Describes a) {L : SelectorList} {r : Route}
    (hstored : ∀ c ∈ L.complexes, c.index < a.complexes.size)
    (hroute : ∀ c ∈ L.complexes, F.complex c = r)
    (hhas : L.containsHas = L.complexes.any a.complexBearsHas) :
    a.Grows { a with lists := a.lists.push L } ∧
      ∃ F' : Routes, F.Keeps F' a ∧ F'.Describes { a with lists := a.lists.push L } ∧
        F'.list ⟨a.lists.size⟩ = r := by
  have hgrows := a.grows_pushList L
  have hnew : Arena.list { a with lists := a.lists.push L } ⟨a.lists.size⟩ = L := by
    simp [Arena.list]
  let F' : Routes := { F with list := fun l => if l = ⟨a.lists.size⟩ then r else F.list l }
  have hkeeps : F.Keeps F' a :=
    { Keeps.refl F a with
      list := fun {l} hl => if_neg (fun heq => Nat.lt_irrefl a.lists.size (by rwa [heq] at hl)) }
  refine ⟨hgrows, F', hkeeps, h.grow hgrows hkeeps ?_ ?_ ?_, if_pos rfl⟩
  · intro l hge hlt
    have hl : l = ⟨a.lists.size⟩ := by
      have hsize : l.index < a.lists.size + 1 := by simpa using hlt
      cases l
      exact congrArg ListId.mk (Nat.le_antisymm (Nat.le_of_lt_succ hsize) hge)
    subst hl
    rw [hnew]
    refine ⟨fun c hc => ⟨hstored c hc, (hroute c hc).trans (if_pos rfl).symm⟩, ?_, ?_⟩
    · rintro inner ⟨c, hc, d, hd, s, hs, hinner⟩
      rw [hnew] at hc
      have hdsize := (h.complexes (hstored c hc)).compounds d hd
      exact ((h.compounds hdsize).lists s hs inner hinner).1
    · rw [hhas]
      exact any_congr_of_mem fun c hc => (h.complexBearsHas_of_grows hgrows (hstored c hc)).symm
  · intro c hge hlt
    exact absurd hlt (Nat.not_lt_of_le hge)
  · intro d hge hlt
    exact absurd hlt (Nat.not_lt_of_le hge)

/-- A sound complex selector gets the way of its last compound. -/
theorem Describes.pushComplex (h : F.Describes a) {C : ComplexSelector} {r : Route}
    (hsound : a.SoundComplex C) (hroute : F.Covers r C.first C.joined) :
    a.Grows { a with complexes := a.complexes.push C } ∧
      ∃ F' : Routes, F.Keeps F' a ∧ F'.Describes { a with complexes := a.complexes.push C } ∧
        F'.complex ⟨a.complexes.size⟩ = r := by
  have hgrows := a.grows_pushComplex C
  have hnew : Arena.complex { a with complexes := a.complexes.push C } ⟨a.complexes.size⟩ = C := by
    simp [Arena.complex]
  let F' : Routes :=
    { F with complex := fun c => if c = ⟨a.complexes.size⟩ then r else F.complex c }
  have hkeeps : F.Keeps F' a :=
    { Keeps.refl F a with
      complex := fun {c} hc =>
        if_neg (fun heq => Nat.lt_irrefl a.complexes.size (by rwa [heq] at hc)) }
  refine ⟨hgrows, F', hkeeps, h.grow hgrows hkeeps ?_ ?_ ?_, if_pos rfl⟩
  · intro l hge hlt
    exact absurd hlt (Nat.not_lt_of_le hge)
  · intro c hge hlt
    have hc : c = ⟨a.complexes.size⟩ := by
      have hsize : c.index < a.complexes.size + 1 := by simpa using hlt
      cases c
      exact congrArg ComplexId.mk (Nat.le_antisymm (Nat.le_of_lt_succ hsize) hge)
    subst hc
    have hr : F'.complex ⟨a.complexes.size⟩ = r := if_pos rfl
    rw [hnew, hr]
    exact ⟨hsound.of_grows hgrows, hroute.of_keeps hkeeps hsound.compounds⟩
  · intro d hge hlt
    exact absurd hlt (Nat.not_lt_of_le hge)

/-- A sound compound whose lists fit a way gets that way. -/
theorem Describes.pushCompound (h : F.Describes a) {D : Compound} {r : Route}
    (hsound : a.SoundCompound D)
    (hroute : ∀ s ∈ D.simples, ∀ l, s.nestedList? = some l → F.list l = r.into s) :
    a.Grows { a with compounds := a.compounds.push D } ∧
      ∃ F' : Routes, F.Keeps F' a ∧ F'.Describes { a with compounds := a.compounds.push D } ∧
        F'.compound ⟨a.compounds.size⟩ = r := by
  have hgrows := a.grows_pushCompound D
  have hnew : Arena.compound { a with compounds := a.compounds.push D } ⟨a.compounds.size⟩ = D := by
    simp [Arena.compound]
  let F' : Routes :=
    { F with compound := fun d => if d = ⟨a.compounds.size⟩ then r else F.compound d }
  have hkeeps : F.Keeps F' a :=
    { Keeps.refl F a with
      compound := fun {d} hd =>
        if_neg (fun heq => Nat.lt_irrefl a.compounds.size (by rwa [heq] at hd)) }
  refine ⟨hgrows, F', hkeeps, h.grow hgrows hkeeps ?_ ?_ ?_, if_pos rfl⟩
  · intro l hge hlt
    exact absurd hlt (Nat.not_lt_of_le hge)
  · intro c hge hlt
    exact absurd hlt (Nat.not_lt_of_le hge)
  · intro d hge hlt
    have hd : d = ⟨a.compounds.size⟩ := by
      have hsize : d.index < a.compounds.size + 1 := by simpa using hlt
      cases d
      exact congrArg CompoundId.mk (Nat.le_antisymm (Nat.le_of_lt_succ hsize) hge)
    subst hd
    have hr : F'.compound ⟨a.compounds.size⟩ = r := if_pos rfl
    rw [hnew, hr]
    exact ⟨hsound.of_grows h.toSound hgrows, hroute⟩

/-- An empty arena is described by any ways. -/
theorem Describes.empty (F : Routes) : F.Describes {} where
  lists hl := absurd hl (Nat.not_lt_zero _)
  complexes hc := absurd hc (Nat.not_lt_zero _)
  compounds hd := absurd hd (Nat.not_lt_zero _)
  smaller hl := absurd hl (Nat.not_lt_zero _)
  containsHas hl := absurd hl (Nat.not_lt_zero _)
  list hl := absurd hl (Nat.not_lt_zero _)
  complex hc := absurd hc (Nat.not_lt_zero _)
  compound hd := absurd hd (Nat.not_lt_zero _)

end Routes

end Selectors

import Selectors.Proofs.Matching.Rows

/-!
# Without `:scope`

A selector that does not ask for `:scope` does not depend on the node that it stands for.  Two
matchers that differ in that node alone may still go different ways: what is no element and no host
is turned away at once by the one, and by the other, for which it is the scope, only after some
tests.  Both come to the same end.

* `Matcher.Concur` relates computations that settle on the same value.
* `Matcher.settles_compound_featureless` is the end for what is no element and no host.
* `Matcher.Infallible.passes_tuned` is the independence of compounds, and
  `Matcher.Infallible.row_tuned` that of rows.
* `Matcher.Infallible.isElement_of_passes` says what passes a compound at all.
-/

namespace Selectors

namespace Matcher

/-- Two computations settle on the same value, whatever they tell. -/
def Concur (α : Type) (x y : Matching α) : Prop :=
  ∃ a ws ws', Settles x (.ok a) ws ∧ Settles y (.ok a) ws'

/-- The computation settles on there being no match. -/
def Refuses (x : Matching Bool) : Prop :=
  ∃ ws, Settles x (.ok false) ws

variable {t : Tree} {m : Matcher} {F : Routes} {σ : ShadowScope} {d : CompoundId} {n : NodeId}

/-- Saying no refuses. -/
theorem Refuses.pure : Refuses (Pure.pure false) :=
  ⟨[], Settles.pure false⟩

/-- Two refusals agree. -/
theorem Refuses.concur {x y : Matching Bool} (hx : Refuses x) (hy : Refuses y) :
    Concur Bool x y := by
  obtain ⟨ws, hx⟩ := hx
  obtain ⟨ws', hy⟩ := hy
  exact ⟨false, ws, ws', hx, hy⟩

/-- Where no member matches none is found. -/
theorem Refuses.anyM {α : Type} {p : α → Matching Bool} {xs : List α}
    (h : ∀ x ∈ xs, Refuses (p x)) : Refuses (xs.anyM p) := by
  induction xs with
  | nil => exact Refuses.pure
  | cons x xs ih =>
      obtain ⟨ws, hx⟩ := h x List.mem_cons_self
      obtain ⟨ws', hrest⟩ := ih fun y hy => h y (List.mem_cons_of_mem x hy)
      exact ⟨ws ++ ws', hx.bind hrest⟩

/-- A row of tests ends with the first one that fails. -/
theorem Refuses.allM {α : Type} {p : α → Matching Bool} {x : α} {xs : List α}
    (h : Refuses (p x)) : Refuses ((x :: xs).allM p) := by
  obtain ⟨ws, hx⟩ := h
  exact ⟨ws ++ [], hx.bind (Settles.pure false)⟩

/-! ### What is no element and no host -/

/-- One test of a node that is no host, where no test asks for `:scope`. -/
theorem refuses_feature {sub : Nested} {s : SimpleSelector} (hs : s.asksScope = false)
    (hsub : ∀ l, s.nestedList? = some l → Refuses (sub.list σ l n)) (isScope : Bool) :
    Refuses (m.matchFeature sub σ false isScope n s) := by
  cases s with
  | pseudo p =>
      cases p with
      | logical op l =>
          cases op with
          | is => exact hsub l rfl
          | whereAny => exact hsub l rfl
          | not => exact Refuses.pure
          | has => exact Refuses.pure
      | host argument =>
          cases argument with
          | none => exact Refuses.pure
          | some l =>
              simp only [matchFeature, Bool.false_eq_true, if_false]
              split
              · exact Refuses.pure
              · exact Refuses.pure
      | hostContext l =>
          simp only [matchFeature, Bool.false_eq_true, if_false]
          split
          · exact Refuses.pure
          · exact Refuses.pure
      | state state =>
          cases state with
          | scope => cases hs
          | _ => exact Refuses.pure
      | _ => exact Refuses.pure
  | _ => exact Refuses.pure

/-- A compound refuses what is no element and no host if the lists of its tests do. -/
theorem refuses_compound (hm : m.tree = t.view) (hlenient : m.strict = false)
    (hscope : ¬m.arena.AsksScope) (hd : m.arena.SoundCompound (m.arena.compound d))
    (helement : t.view.isElement n = false) (hhost : ¬(t.kind n = .shadowRoot ∧ σ = some n))
    {sub : Nested} (hsub : ∀ s ∈ (m.arena.compound d).simples, ∀ l, s.nestedList? = some l →
      Refuses (sub.list σ l n)) : Refuses (m.matchCompound sub σ d n) := by
  unfold matchCompound
  dsimp only
  split
  · exact ⟨_, settles_unsupported hlenient _⟩
  rw [hm, helement]
  simp only [Bool.false_eq_true, if_false]
  unfold matchFeatureless
  have hisHost : (m.tree.kind n == .shadowRoot && σ == some n) = false := by
    rw [hm, Bool.and_eq_false_iff, beq_eq_false_iff_ne, beq_eq_false_iff_ne]
    by_cases hkind : t.view.kind n = .shadowRoot
    · exact Or.inr fun hσ => hhost ⟨hkind, hσ⟩
    · exact Or.inl hkind
  dsimp only
  rw [hisHost]
  split
  · exact Refuses.pure
  · rename_i hgate
    have hsimples : (m.arena.compound d).simples ≠ [] := by
      intro hnil
      apply hgate
      rw [hnil]
      simp
    obtain ⟨s', hs'⟩ := List.exists_mem_of_ne_nil _ hsimples
    cases horder : (m.arena.compound d).inOrder with
    | nil =>
        have hmem := hd.mem_inOrder hs'
        rw [horder] at hmem
        exact absurd hmem List.not_mem_nil
    | cons s rest =>
        have hs : s ∈ (m.arena.compound d).simples :=
          Compound.mem_simples (horder ▸ List.mem_cons_self)
        apply Refuses.allM
        refine refuses_feature ?_ (hsub s hs) _
        rw [Bool.eq_false_iff]
        exact fun hasks => hscope ⟨d, s, hs, hasks⟩

/-- A list refuses what is no element and no host, by induction on the level: the last compound of
each member is asked first. -/
theorem Infallible.refuses_list (H : Infallible t m F) (hscope : ¬m.arena.AsksScope)
    (helement : t.view.isElement n = false) (hhost : ¬(t.kind n = .shadowRoot ∧ σ = some n))
    {depth : Nat} {l : ListId} (hl : l.index < m.arena.listCount) :
    Refuses ((m.nested depth).list σ l n) := by
  induction depth generalizing l with
  | zero => exact Refuses.pure
  | succ depth ih =>
      apply Refuses.anyM
      intro id hid
      have hsubject : Refuses
          (m.matchCompound (m.nested depth) σ (m.arena.complex id).subject n) := by
        have hstored := (H.described.complexes (H.described.lists hl id hid)).compounds _
          (m.arena.complex id).subject_mem
        have hsound := H.described.compounds hstored
        refine refuses_compound H.view H.lenient hscope hsound helement hhost ?_
        intro s hs inner hinner
        exact ih (hsound.lists s hs inner hinner).1
      obtain ⟨ws, hsubject⟩ := hsubject
      unfold matchComplex
      dsimp only
      cases (m.arena.complex id).leftward with
      | nil => exact ⟨ws ++ [], hsubject.bind (Settles.pure false)⟩
      | cons step more => exact ⟨ws ++ [], hsubject.bind (Settles.pure false)⟩

/-! ### Two nodes for `:scope` -/

variable {scope : Option NodeId}

/-- Matchers that differ in their scope are parallel, where nothing asks for the scope. -/
theorem parallel_concur (hlenient : m.strict = false) (hplain : ¬m.arena.NamesPrefix)
    (hscope : ¬m.arena.AsksScope) (hforgets : m.remembers = false) (scope : Option NodeId) :
    m.Parallel scope false m.remembers Concur where
  same := Or.inr hscope
  pure a := ⟨a, [], [], Settles.pure a, Settles.pure a⟩
  bind := by
    intro α β x y g g' hxy hg
    obtain ⟨a, ws, ws', hx, hy⟩ := hxy
    obtain ⟨b, vs, vs', hx', hy'⟩ := hg a
    exact ⟨b, ws ++ vs, ws' ++ vs', hx.bind hx', hy.bind hy'⟩
  state n s hs := by
    have hstate : m.tree.inState m.readers scope n s = m.tree.inState m.readers m.scope n s := by
      rcases hs with rfl | hs
      · rfl
      · cases s with
        | scope => exact absurd rfl hs
        | _ => rfl
    refine ⟨m.tree.inState m.readers m.scope n s, [], [], ?_, ?_⟩
    · rw [matchState_of_forgetful hforgets]
      exact Settles.pure _
    · rw [matchState_of_forgetful (m := m.tuned scope false m.remembers) hforgets, hstate]
      exact Settles.pure _
  unsupported e _ :=
    ⟨false, _, _, settles_unsupported hlenient e, settles_unsupported rfl e⟩
  fail hprefix := absurd hprefix hplain

/-- The matcher with another node for `:scope` fails as little. -/
theorem Infallible.tuned (H : Infallible t m F) (scope : Option NodeId) (remembers : Bool) :
    Infallible t (m.tuned scope false remembers) F where
  tree := H.tree
  view := H.view
  described := H.described
  lenient := rfl
  plain := H.plain

section Concur

variable {sub sub' : Nested}

/-- A compound concurs if the lists of its tests do. -/
theorem Infallible.compound_concurs (H : Infallible t m F) (hscope : ¬m.arena.AsksScope)
    (hforgets : m.remembers = false) (hd : d.index < m.arena.compounds.size)
    (hsub : ∀ l : ListId, l.index < m.arena.listCount → ∀ σ x,
      Concur Bool (sub.list σ l x) (sub'.list σ l x) ∧
        Concur Bool (sub.has σ l x) (sub'.has σ l x))
    (hrefuses : t.view.isElement n = false → ¬(t.kind n = .shadowRoot ∧ σ = some n) →
      ∀ l : ListId, l.index < m.arena.listCount →
        Refuses (sub.list σ l n) ∧ Refuses (sub'.list σ l n)) :
    Concur Bool (m.matchCompound sub σ d n)
      ((m.tuned scope false m.remembers).matchCompound sub' σ d n) := by
  have hsound := H.described.compounds hd
  have hparallel := parallel_concur H.lenient H.plain hscope hforgets scope
  have hask : Asks m Concur sub sub' σ σ d n :=
    { list := fun s hs _ _ l hl x _ => (hsub l (hsound.lists s hs l hl).1 σ x).1
      has := fun l hs => (hsub l (hsound.lists _ hs l rfl).1 σ n).2
      host := fun s hs _ l hl _ x _ _ _ _ => (hsub l (hsound.lists s hs l hl).1 σ x).1
      isHost := fun _ => Iff.rfl }
  cases helement : t.view.isElement n with
  | true =>
      rw [← H.view] at helement
      exact hparallel.matchCompound hask (Or.inr (Or.inl helement))
  | false =>
      by_cases hhost : t.kind n = .shadowRoot ∧ σ = some n
      · refine hparallel.matchCompound hask (Or.inr (Or.inr ?_))
        rw [H.view]
        exact hhost
      · have hlists := hrefuses helement hhost
        refine Refuses.concur
          (refuses_compound H.view H.lenient hscope hsound helement hhost ?_)
          (refuses_compound (m := m.tuned scope false m.remembers) H.view rfl hscope hsound
            helement hhost ?_)
        · exact fun s hs l hl => (hlists l (hsound.lists s hs l hl).1).1
        · exact fun s hs l hl => (hlists l (hsound.lists s hs l hl).1).2

end Concur

/-- **Lists concur**, by induction on the level. -/
theorem Infallible.nested_concurs (H : Infallible t m F) (hscope : ¬m.arena.AsksScope)
    (hforgets : m.remembers = false) {depth : Nat} {l : ListId}
    (hl : l.index < m.arena.listCount) (σ : ShadowScope) (n : NodeId) :
    Concur Bool ((m.nested depth).list σ l n)
        (((m.tuned scope false m.remembers).nested depth).list σ l n) ∧
      Concur Bool ((m.nested depth).has σ l n)
        (((m.tuned scope false m.remembers).nested depth).has σ l n) := by
  have hparallel := parallel_concur H.lenient H.plain hscope hforgets scope
  induction depth generalizing l σ n with
  | zero => exact ⟨hparallel.pure false, hparallel.pure false⟩
  | succ depth ih =>
      have hcomplex : ∀ id ∈ (m.arena.list l).complexes, ∀ anchor x,
          Concur Bool (m.matchComplex (m.nested depth) anchor σ id x)
            ((m.tuned scope false m.remembers).matchComplex
              ((m.tuned scope false m.remembers).nested depth) anchor σ id x) := by
        intro id hid anchor x
        have hsound := H.described.complexes (H.described.lists hl id hid)
        refine hparallel.matchChain anchor (alikeAlong_of_compounds ?_)
        intro b hb σ y
        have hstored := hsound.compounds b (ComplexSelector.mem_of_mem_chain hb)
        refine H.compound_concurs hscope hforgets hstored (fun inner hinner σ z => ih hinner σ z) ?_
        intro helement hhost inner hinner
        exact ⟨H.refuses_list hscope helement hhost hinner,
          (H.tuned scope m.remembers).refuses_list hscope helement hhost hinner⟩
      constructor
      · exact hparallel.anyM fun id hid => hcomplex id hid none n
      · change Concur Bool (m.answerOnce (n, l) _)
          ((m.tuned scope false m.remembers).answerOnce (n, l) _)
        rw [answerOnce_of_forgetful hforgets,
          answerOnce_of_forgetful (m := m.tuned scope false m.remembers) hforgets]
        exact hparallel.anyM fun id hid => hparallel.anyM fun x _ => hcomplex id hid _ x

/-! ### What passes -/

variable {l : ListId} {id : ComplexId}

/-- The matcher without a memory fails as little. -/
theorem Infallible.forgetful (H : Infallible t m F) : Infallible t m.forgetful F where
  tree := H.tree
  view := H.view
  described := H.described
  lenient := H.lenient
  plain := H.plain

/-- **What passes a compound does not depend on the node for `:scope`.** -/
theorem Infallible.passes_tuned (H : Infallible t m F) (hscope : ¬m.arena.AsksScope)
    (hid : id ∈ (m.arena.list l).complexes) (hd : d ∈ (m.arena.complex id).compounds) :
    (m.tuned scope false m.remembers).Passes σ d n ↔ m.Passes σ d n := by
  have hl := Arena.lt_of_mem_list hid
  have hstored := (H.described.complexes (H.described.lists hl id hid)).compounds d hd
  obtain ⟨b, ws, hb, hpasses⟩ := H.settles_compound hl hid hd σ n
  obtain ⟨b', ws', hb', hpasses'⟩ :=
    (H.tuned scope m.remembers).settles_compound hl hid hd σ n
  have hconcur : Concur Bool (m.forgetful.matchCompound m.forgetful.inside σ d n)
      ((m.forgetful.tuned scope false false).matchCompound
        (m.forgetful.tuned scope false false).inside σ d n) := by
    refine H.forgetful.compound_concurs hscope rfl hstored ?_ ?_
    · intro inner hinner σ x
      exact H.forgetful.nested_concurs hscope rfl hinner σ x
    · intro helement hhost inner hinner
      exact ⟨H.forgetful.refuses_list hscope helement hhost hinner,
        (H.forgetful.tuned scope false).refuses_list hscope helement hhost hinner⟩
  obtain ⟨a, vs, vs', ha, ha'⟩ := hconcur
  have hab : Except.ok a = Except.ok b := (ha.unique hb).1
  have hab' : Except.ok a = Except.ok b' := (ha'.unique hb').1
  cases hab
  cases hab'
  rw [← hpasses, ← hpasses']

/-- Nor do rows. -/
theorem Infallible.row_tuned (H : Infallible t m F) (hscope : ¬m.arena.AsksScope)
    (hid : id ∈ (m.arena.list l).complexes) {e : Nat → NodeId} :
    Row t (m.tuned scope false m.remembers) σ (m.arena.complex id) e ↔
      Row t m σ (m.arena.complex id) e := by
  have hpasses : ∀ {d : CompoundId} {i : Nat} {σ : ShadowScope} {n : NodeId},
      (m.arena.complex id).compounds[i]? = some d →
        ((m.tuned scope false m.remembers).Passes σ d n ↔ m.Passes σ d n) :=
    fun hd => H.passes_tuned hscope hid (List.mem_of_getElem? hd)
  constructor
  · intro hrow
    exact ⟨hrow.joins, fun i d hd => (hpasses hd).mp (hrow.passes i d hd)⟩
  · intro hrow
    exact ⟨hrow.joins, fun i d hd => (hpasses hd).mpr (hrow.passes i d hd)⟩

/-- **Only elements pass, and hosts**, for which in their own tree the shadow root stands. -/
theorem Infallible.isElement_or_host_of_passes (H : Infallible t m F)
    (hscope : ¬m.arena.AsksScope) (hid : id ∈ (m.arena.list l).complexes)
    (hd : d ∈ (m.arena.complex id).compounds) (hpasses : m.Passes σ d n) :
    t.view.isElement n = true ∨ (t.kind n = .shadowRoot ∧ σ = some n) := by
  cases helement : t.view.isElement n with
  | true => exact Or.inl rfl
  | false =>
      apply Or.inr
      by_contra hhost
      have hl := Arena.lt_of_mem_list hid
      have hstored := (H.described.complexes (H.described.lists hl id hid)).compounds d hd
      have hsound := H.described.compounds hstored
      obtain ⟨b, ws, hb, hiff⟩ := H.settles_compound hl hid hd σ n
      have hrefuses : Refuses (m.forgetful.matchCompound m.forgetful.inside σ d n) := by
        refine refuses_compound (m := m.forgetful) H.view H.lenient hscope hsound helement hhost ?_
        intro s hs inner hinner
        exact H.forgetful.refuses_list hscope helement hhost (hsound.lists s hs inner hinner).1
      obtain ⟨ws', hrefuses⟩ := hrefuses
      have hfalse : Except.ok b = Except.ok false := (hb.unique hrefuses).1
      cases hfalse
      exact Bool.false_ne_true (hiff.mpr hpasses)

/-- A compound with an id is passed by elements alone. -/
theorem isElement_of_passes_id (hm : m.tree = t.view)
    (hsound : m.arena.SoundCompound (m.arena.compound d))
    (hid : ∃ s ∈ (m.arena.compound d).simples, Compile.isId s = true)
    (hpasses : m.Passes σ d n) : t.view.isElement n = true := by
  by_contra helement
  rw [Bool.not_eq_true] at helement
  unfold Passes matchCompound at hpasses
  dsimp only at hpasses
  split at hpasses
  · unfold unsupported at hpasses
    split at hpasses <;> cases hpasses
  rw [hm, helement] at hpasses
  simp only [Bool.false_eq_true, if_false] at hpasses
  unfold matchFeatureless at hpasses
  dsimp only at hpasses
  split at hpasses
  · cases hpasses
  · obtain ⟨s, hs, hisId⟩ := hid
    have hmade := hsound.mem_inOrder hs
    obtain ⟨s₁, s₂, hrun⟩ := exists_of_runFrom_allM (Prod.ext hpasses rfl) s hmade
    cases s with
    | id name => cases hrun
    | _ => cases hisId

end Matcher

end Selectors

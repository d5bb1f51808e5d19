import Selectors.Proofs.Compiled.Expansion
import Selectors.Proofs.Running

/-!
# Compiling from two arenas

A step of compiling may start from any arena, one with the leavings of members that failed among
them.  Two runs of it end as one if they both fail in the same way, or both have results that expand
to the same.  The places of the results differ, so the steps that follow are given different values,
of which they know no more than what these expand to.

* `Part` is a kind of values with what they expand to, and `Part.Same` compares two of them.
* `Compile.Twin` relates two runs; `Compile.Twin.bind`, `Compile.Twin.forgive`,
  `Compile.Twin.mapM`, `Compile.Twin.filterMapM` and `Compile.Twin.foldlM` put steps together.
* `Compile.Twin.pushList`, `Compile.Twin.pushComplex` and `Compile.Twin.pushCompound` are the steps
  that store.
-/

namespace Selectors

/-! ### Values that refer to an arena -/

/-- A kind of values that refer to parts of an arena, with what they expand to. -/
structure Part (α β : Type) where
  /-- What the value refers to is stored. -/
  Stored : Arena → α → Prop
  expand : Arena → α → β
  lasts : ∀ {a a' : Arena} {v : α}, a.Closed → a.Grows a' → Stored a v →
    Stored a' v ∧ expand a' v = expand a v

namespace Part

variable {α β γ δ : Type}

/-- Values that refer to nothing, with a property. -/
def known (P : α → Prop) : Part α α where
  Stored _ v := P v
  expand _ v := v
  lasts _ _ hv := ⟨hv, rfl⟩

/-- Values that refer to nothing. -/
abbrev plain (α : Type) : Part α α :=
  known fun _ => True

/-- The list in an argument: where it was read as one compound it has a member. -/
def argument (mode : ListMode) : Part ListId ListTree where
  Stored a l := l.index < a.lists.size ∧ (mode = .compound → (a.list l).complexes ≠ [])
  expand := Arena.expand
  lasts ha hgrows hl := by
    refine ⟨⟨Nat.lt_of_lt_of_le hl.1 hgrows.lists, ?_⟩, ha.expand_of_grows hgrows hl.1⟩
    rw [hgrows.list hl.1]
    exact hl.2

def complex : Part ComplexId (ComplexTree ListTree) where
  Stored a c := c.index < a.complexes.size
  expand := Arena.expandComplex
  lasts ha hgrows hc :=
    ⟨Nat.lt_of_lt_of_le hc hgrows.complexes, ha.expandComplex_of_grows hgrows hc⟩

def compound : Part CompoundId (CompoundTree ListTree) where
  Stored a d := d.index < a.compounds.size
  expand := Arena.expandCompound
  lasts ha hgrows hd :=
    ⟨Nat.lt_of_lt_of_le hd hgrows.compounds, ha.expandCompound_of_grows hgrows hd⟩

def test : Part SimpleSelector (SimpleSelector × Option ListTree) where
  Stored a s := ∀ l, s.nestedList? = some l → l.index < a.lists.size
  expand a := Arena.expandTest a.expand
  lasts ha hgrows hs :=
    ⟨fun l hl => Nat.lt_of_lt_of_le (hs l hl) hgrows.lists, ha.expandTest_of_grows hgrows hs⟩

def pseudoClass : Part PseudoClass (SimpleSelector × Option ListTree) where
  Stored a p := test.Stored a (.pseudo p)
  expand a p := test.expand a (.pseudo p)
  lasts := test.lasts

def many (E : Part α β) : Part (List α) (List β) where
  Stored a vs := ∀ v ∈ vs, E.Stored a v
  expand a vs := vs.map (E.expand a)
  lasts ha hgrows hvs :=
    ⟨fun v hv => (E.lasts ha hgrows (hvs v hv)).1,
      List.map_congr_left fun v hv => (E.lasts ha hgrows (hvs v hv)).2⟩

def optional (E : Part α β) : Part (Option α) (Option β) where
  Stored a o := ∀ v, o = some v → E.Stored a v
  expand a o := o.map (E.expand a)
  lasts {a a' o} ha hgrows ho := by
    refine ⟨fun v hv => (E.lasts ha hgrows (ho v hv)).1, ?_⟩
    cases o with
    | none => rfl
    | some v => exact congrArg some (E.lasts ha hgrows (ho v rfl)).2

def pair (E : Part α β) (G : Part γ δ) : Part (α × γ) (β × δ) where
  Stored a v := E.Stored a v.1 ∧ G.Stored a v.2
  expand a v := (E.expand a v.1, G.expand a v.2)
  lasts ha hgrows hv :=
    ⟨⟨(E.lasts ha hgrows hv.1).1, (G.lasts ha hgrows hv.2).1⟩,
      Prod.ext (E.lasts ha hgrows hv.1).2 (G.lasts ha hgrows hv.2).2⟩

/-- The steps to further compounds. -/
abbrev steps : Part (List (Combinator × CompoundId)) (List (Combinator × CompoundTree ListTree)) :=
  many (pair (plain Combinator) compound)

/-- Two values in two arenas that expand to the same. -/
structure Same (E : Part α β) (a a' : Arena) (v v' : α) : Prop where
  stored : E.Stored a v
  stored' : E.Stored a' v'
  expand : E.expand a v = E.expand a' v'

end Part

/-! ### Two runs -/

namespace Compile

/-- Two closed arenas in which more was stored. -/
structure Later (a a' b b' : Arena) : Prop where
  closed : a.Closed
  closed' : a'.Closed
  grows : a.Grows b
  grows' : a'.Grows b'

/-- The ends of two runs: they failed in the same way, or their results expand to the same. -/
inductive EndsAsOne {α β : Type} (E : Part α β) (b b' : Arena) :
    Except SelectorError α → Except SelectorError α → Prop
  | error (e : SelectorError) : EndsAsOne E b b' (.error e) (.error e)
  | ok {v v' : α} (h : E.Same b b' v v') : EndsAsOne E b b' (.ok v) (.ok v')

/-- What two runs store, and how they end. -/
structure RunsAsOne {α β : Type} (E : Part α β) (a a' : Arena)
    (p p' : Except SelectorError α × Arena) : Prop where
  grows : a.Grows p.2
  grows' : a'.Grows p'.2
  closed : p.2.Closed
  closed' : p'.2.Closed
  ends : EndsAsOne E p.2 p'.2 p.1 p'.1

/-- **Two runs from two closed arenas** that end as one. -/
def Twin {α β : Type} (E : Part α β) (a a' : Arena) (x y : Compile α) : Prop :=
  a.Closed → a'.Closed → RunsAsOne E a a' (runFrom x a) (runFrom y a')

variable {α β γ δ : Type} {E : Part α β} {G : Part γ δ} {a a' b b' : Arena}

/-- What is the same is the same when more is stored. -/
theorem Later.same (h : Later a a' b b') {v v' : α} (hv : E.Same a a' v v') :
    E.Same b b' v v' where
  stored := (E.lasts h.closed h.grows hv.stored).1
  stored' := (E.lasts h.closed' h.grows' hv.stored').1
  expand := by
    rw [(E.lasts h.closed h.grows hv.stored).2, (E.lasts h.closed' h.grows' hv.stored').2]
    exact hv.expand

theorem same_plain (v : α) : (Part.plain α).Same a a' v v :=
  ⟨trivial, trivial, rfl⟩

theorem same_nil : E.many.Same a a' [] [] where
  stored _ hv := absurd hv List.not_mem_nil
  stored' _ hv := absurd hv List.not_mem_nil
  expand := rfl

/-- Rows are the same if their first values are and the rest. -/
theorem same_cons {v v' : α} {vs vs' : List α} (hv : E.Same a a' v v')
    (hvs : E.many.Same a a' vs vs') : E.many.Same a a' (v :: vs) (v' :: vs') where
  stored := List.forall_mem_cons.mpr ⟨hv.stored, hvs.stored⟩
  stored' := List.forall_mem_cons.mpr ⟨hv.stored', hvs.stored'⟩
  expand := by
    change E.expand a v :: E.many.expand a vs = E.expand a' v' :: E.many.expand a' vs'
    rw [hv.expand, hvs.expand]

/-- Rows put together are the same if their parts are. -/
theorem same_append {vs vs' ws ws' : List α} (hvs : E.many.Same a a' vs vs')
    (hws : E.many.Same a a' ws ws') : E.many.Same a a' (vs ++ ws) (vs' ++ ws') where
  stored := List.forall_mem_append.mpr ⟨hvs.stored, hws.stored⟩
  stored' := List.forall_mem_append.mpr ⟨hvs.stored', hws.stored'⟩
  expand := by
    have hmap : ∀ (c : Arena) (us us' : List α),
        E.many.expand c (us ++ us') = E.many.expand c us ++ E.many.expand c us' :=
      fun _ _ _ => List.map_append
    rw [hmap, hmap, hvs.expand, hws.expand]

theorem same_none : E.optional.Same a a' none none where
  stored _ hv := by cases hv
  stored' _ hv := by cases hv
  expand := rfl

theorem same_some {v v' : α} (hv : E.Same a a' v v') :
    E.optional.Same a a' (some v) (some v') where
  stored _ h := Option.some.inj h ▸ hv.stored
  stored' _ h := Option.some.inj h ▸ hv.stored'
  expand := congrArg some hv.expand

theorem same_pair {v v' : α} {w w' : γ} (hv : E.Same a a' v v') (hw : G.Same a a' w w') :
    (E.pair G).Same a a' (v, w) (v', w') :=
  ⟨⟨hv.stored, hw.stored⟩, ⟨hv.stored', hw.stored'⟩, Prod.ext hv.expand hw.expand⟩

/-- Pairs are the same if their parts are, and only then. -/
theorem same_pair_iff {v v' : α × γ} :
    (E.pair G).Same a a' v v' ↔ E.Same a a' v.1 v'.1 ∧ G.Same a a' v.2 v'.2 := by
  constructor
  · intro h
    obtain ⟨h₁, h₂⟩ := Prod.mk.inj h.expand
    exact ⟨⟨h.stored.1, h.stored'.1, h₁⟩, ⟨h.stored.2, h.stored'.2, h₂⟩⟩
  · exact fun h => same_pair h.1 h.2

/-- What the expansions decide is the same for both. -/
theorem map_eq_of_same {f f' : α → γ} {g : β → γ} {vs vs' : List α}
    (h : E.many.Same a a' vs vs') (hf : ∀ v, f v = g (E.expand a v))
    (hf' : ∀ v, f' v = g (E.expand a' v)) : vs.map f = vs'.map f' := by
  have hg := congrArg (List.map g) h.expand
  change (vs.map (E.expand a)).map g = (vs'.map (E.expand a')).map g at hg
  rw [List.map_map, List.map_map] at hg
  rw [funext hf, funext hf']
  exact hg

/-- A test that looks at what values expand to answers alike on rows that are the same. -/
theorem any_eq_of_same {p p' : α → Bool} {q : β → Bool} {vs vs' : List α}
    (h : E.many.Same a a' vs vs') (hp : ∀ v, p v = q (E.expand a v))
    (hp' : ∀ v, p' v = q (E.expand a' v)) : vs.any p = vs'.any p' := by
  have hid : ∀ (us : List α) (r : α → Bool), us.any r = (us.map r).any id :=
    fun us r => by rw [List.any_map, Function.id_comp]
  rw [hid, hid, map_eq_of_same h hp hp']

/-- The rank of a test, told from its expansion. -/
def testRank (t : SimpleSelector × Option ListTree) : Nat :=
  if Arena.testBearsHas t then 5
  else
    match t.1 with
    | .id _ => 0
    | .type .. => 1
    | .class _ => 2
    | .attribute _ => 3
    | .pseudo _ => 4

/-- The rank of a test is read off what the test expands to. -/
theorem rank_eq (a : Arena) (s : SimpleSelector) :
    rank a s = testRank (Arena.expandTest a.expand s) := by
  unfold rank testRank
  rw [a.bearsHas_eq]
  split
  · rfl
  · cases s <;> rfl

theorem lt_size_push {xs : Array α} {x : α} : xs.size < (xs.push x).size := by
  rw [Array.size_push]
  exact Nat.lt_succ_self _

namespace Twin

variable {x y : Compile α}

/-! ### Single steps -/

theorem pure {v v' : α} (h : E.Same a a' v v') : Twin E a a' (Pure.pure v) (Pure.pure v') :=
  fun ha ha' => ⟨Arena.Grows.refl a, Arena.Grows.refl a', ha, ha', .ok h⟩

theorem throw (e : SelectorError) : Twin E a a' (MonadExcept.throw e) (MonadExcept.throw e) :=
  fun ha ha' => ⟨Arena.Grows.refl a, Arena.Grows.refl a', ha, ha', .error e⟩

/-- Two steps, where more is known of what the first returns. -/
theorem bind_of_returns {R R' : α → Prop} {f g : α → Compile γ} (hx : Twin E a a' x y)
    (hR : Returns x R) (hR' : Returns y R')
    (hf : ∀ v v' b b', Later a a' b b' → E.Same b b' v v' → R v → R' v' →
      Twin G b b' (f v) (g v')) :
    Twin G a a' (x >>= f) (y >>= g) := by
  intro ha ha'
  have hreturned : ∀ v b, runFrom x a = (.ok v, b) → R v := fun _ _ => hR.of_run
  have hreturned' : ∀ v b, runFrom y a' = (.ok v, b) → R' v := fun _ _ => hR'.of_run
  obtain ⟨hgrows, hgrows', hb, hb', hends⟩ := hx ha ha'
  rw [runFrom_bind, runFrom_bind]
  generalize runFrom x a = p, runFrom y a' = p' at *
  obtain ⟨r, b⟩ := p
  obtain ⟨r', b'⟩ := p'
  cases hends with
  | error e => exact ⟨hgrows, hgrows', hb, hb', .error e⟩
  | ok hv =>
      obtain ⟨hgrows₂, hgrows₂', hc, hc', hends⟩ :=
        hf _ _ b b' ⟨ha, ha', hgrows, hgrows'⟩ hv (hreturned _ _ rfl) (hreturned' _ _ rfl) hb hb'
      exact ⟨hgrows.trans hgrows₂, hgrows'.trans hgrows₂', hc, hc', hends⟩

/-- **Two steps**: the second starts from arenas in which the first has stored more. -/
theorem bind {f g : α → Compile γ} (hx : Twin E a a' x y)
    (hf : ∀ v v' b b', Later a a' b b' → E.Same b b' v v' → Twin G b b' (f v) (g v')) :
    Twin G a a' (x >>= f) (y >>= g) :=
  bind_of_returns hx (Returns.any x) (Returns.any y) fun v v' b b' hlater hv _ _ =>
    hf v v' b b' hlater hv

/-- A first step that gives the same value in both runs, with a property. -/
theorem bind_known {P : α → Prop} {f g : α → Compile γ} (hx : Twin (Part.known P) a a' x y)
    (hf : ∀ v b b', P v → Later a a' b b' → Twin G b b' (f v) (g v)) :
    Twin G a a' (x >>= f) (y >>= g) := by
  refine bind hx fun v v' b b' hlater hv => ?_
  obtain rfl : v = v' := hv.expand
  exact hf v b b' hv.stored hlater

/-- Two steps of which the first gives a value that refers to nothing. -/
theorem bind_plain {f g : α → Compile γ} (hx : Twin (Part.plain α) a a' x y)
    (hf : ∀ v b b', Later a a' b b' → Twin G b b' (f v) (g v)) :
    Twin G a a' (x >>= f) (y >>= g) :=
  bind_known hx fun v b b' _ => hf v b b'

theorem map {f g : α → γ} (hx : Twin E a a' x y)
    (hf : ∀ v v' b b', Later a a' b b' → E.Same b b' v v' → G.Same b b' (f v) (g v')) :
    Twin G a a' (f <$> x) (g <$> y) := by
  rw [map_eq_pure_bind, map_eq_pure_bind]
  exact bind hx fun v v' b b' hlater hv => pure (hf v v' b b' hlater hv)

theorem throw_bind (e : SelectorError) (f g : α → Compile γ) :
    Twin G a a' (MonadExcept.throw e >>= f) (MonadExcept.throw e >>= g) :=
  throw e

/-- Results that expand to the same in one way do in another. -/
theorem weaken {F : Part α δ} (hx : Twin E a a' x y)
    (h : ∀ v v' b b', E.Same b b' v v' → F.Same b b' v v') : Twin F a a' x y := by
  intro ha ha'
  obtain ⟨hgrows, hgrows', hb, hb', hends⟩ := hx ha ha'
  refine ⟨hgrows, hgrows', hb, hb', ?_⟩
  generalize runFrom x a = p, runFrom y a' = p' at hends
  obtain ⟨r, b⟩ := p
  obtain ⟨r', b'⟩ := p'
  cases hends with
  | error e => exact .error e
  | ok hv => exact .ok (h _ _ b b' hv)

/-- A failure that is forgiven leaves what was stored before it.  The two runs leave different
things behind, but nothing refers to either. -/
theorem forgive {o : Compile α} (hx : Twin E a a' x y)
    (ho : ∀ b b', Twin E b b' o o) :
    Twin E a a' (tryCatch x fun _ => o) (tryCatch y fun _ => o) := by
  intro ha ha'
  obtain ⟨hgrows, hgrows', hb, hb', hends⟩ := hx ha ha'
  rw [runFrom_tryCatch, runFrom_tryCatch]
  generalize runFrom x a = p, runFrom y a' = p' at hgrows hgrows' hb hb' hends
  obtain ⟨r, b⟩ := p
  obtain ⟨r', b'⟩ := p'
  cases hends with
  | error e =>
      obtain ⟨hgrows₂, hgrows₂', hc, hc', hends⟩ := ho b b' hb hb'
      exact ⟨hgrows.trans hgrows₂, hgrows'.trans hgrows₂', hc, hc', hends⟩
  | ok hv => exact ⟨hgrows, hgrows', hb, hb', .ok hv⟩

/-! ### Rows of steps -/

/-- Rows of steps end as one if the steps do. -/
theorem mapM {ι : Type} {f g : ι → Compile α} {xs : List ι}
    (hfg : ∀ x ∈ xs, ∀ b b', Twin E b b' (f x) (g x)) :
    Twin E.many a a' (xs.mapM f) (xs.mapM g) := by
  induction xs generalizing a a' with
  | nil => exact pure same_nil
  | cons x xs ih =>
      rw [List.mapM_cons, List.mapM_cons]
      refine bind (hfg x List.mem_cons_self a a') fun v v' b b' _ hv => ?_
      have hrest : Twin E.many b b' (xs.mapM f) (xs.mapM g) :=
        ih fun y hy => hfg y (List.mem_cons_of_mem x hy)
      exact bind hrest fun vs vs' c c' hlater hvs => pure (same_cons (hlater.same hv) hvs)

/-- Rows of steps of which some give nothing end as one if the steps do. -/
theorem filterMapM {ι : Type} {f g : ι → Compile (Option α)} {xs : List ι}
    (hfg : ∀ x ∈ xs, ∀ b b', Twin E.optional b b' (f x) (g x)) :
    Twin E.many a a' (xs.filterMapM f) (xs.filterMapM g) := by
  induction xs generalizing a a' with
  | nil => exact pure same_nil
  | cons x xs ih =>
      have hrest : ∀ b b', Twin E.many b b' (xs.filterMapM f) (xs.filterMapM g) :=
        fun b b' => ih fun y hy => hfg y (List.mem_cons_of_mem x hy)
      rw [List.filterMapM_cons, List.filterMapM_cons]
      refine bind (hfg x List.mem_cons_self a a') fun o o' b b' _ ho => ?_
      cases o with
      | none =>
          cases o' with
          | none => exact hrest b b'
          | some v' => exact absurd ho.expand (by simp [Part.optional])
      | some v =>
          cases o' with
          | none => exact absurd ho.expand (by simp [Part.optional])
          | some v' =>
              have hv : E.Same b b' v v' :=
                ⟨ho.stored v rfl, ho.stored' v' rfl, Option.some.inj ho.expand⟩
              refine bind (hrest b b') fun vs vs' c c' hlater hvs => ?_
              exact pure (same_cons (hlater.same hv) hvs)

/-- Folds end as one if their steps do. -/
theorem foldlM {ι : Type} {f g : α → ι → Compile α} {xs : List ι}
    (hfg : ∀ x ∈ xs, ∀ v v' b b', E.Same b b' v v' → Twin E b b' (f v x) (g v' x)) {v v' : α}
    (hv : E.Same a a' v v') : Twin E a a' (xs.foldlM f v) (xs.foldlM g v') := by
  induction xs generalizing v v' a a' with
  | nil => exact pure hv
  | cons x xs ih =>
      rw [List.foldlM_cons, List.foldlM_cons]
      refine bind (hfg x List.mem_cons_self v v' a a' hv) fun w w' b b' _ hw => ?_
      exact ih (fun y hy => hfg y (List.mem_cons_of_mem x hy)) hw

/-! ### Storing -/

/-- Lists of members that expand to the same.  One that is read as a single compound has a
member. -/
theorem pushList {mode : ListMode} {cs cs' : List ComplexId}
    (h : Part.complex.many.Same a a' cs cs') (hcs : mode = .compound → cs ≠ [])
    (hcs' : mode = .compound → cs' ≠ []) :
    Twin (Part.argument mode) a a' (Compile.pushList cs) (Compile.pushList cs') := by
  intro ha ha'
  let L : SelectorList := ⟨cs, cs.any a.complexBearsHas⟩
  let L' : SelectorList := ⟨cs', cs'.any a'.complexBearsHas⟩
  have hstored : ∀ {c : Arena} {M : SelectorList}, (mode = .compound → M.complexes ≠ []) →
      (Part.argument mode).Stored { c with lists := c.lists.push M } ⟨c.lists.size⟩ := by
    refine fun hM => ⟨lt_size_push, fun hmode => ?_⟩
    simpa [Arena.list] using hM hmode
  refine ⟨Arena.grows_pushList a L, Arena.grows_pushList a' L', ha.pushList h.stored,
    ha'.pushList h.stored', .ok ⟨hstored hcs, hstored hcs', ?_⟩⟩
  have hhas : cs.any a.complexBearsHas = cs'.any a'.complexBearsHas :=
    any_eq_of_same h a.complexBearsHas_eq a'.complexBearsHas_eq
  refine (ha.expand_pushList (L := L) h.stored).trans
    (Eq.trans ?_ (ha'.expand_pushList (L := L') h.stored').symm)
  exact congr (congrArg ListTree.node h.expand) hhas

/-- Complex selectors that differ in the places of their compounds alone. -/
theorem pushComplex {c c' : ComplexSelector} (hfirst : Part.compound.Same a a' c.first c'.first)
    (hjoined : Part.steps.Same a a' c.joined c'.joined) (hleading : c.leading = c'.leading)
    (htext : c.text = c'.text) (hdirection : c.direction = c'.direction) :
    Twin Part.complex a a' (Compile.pushComplex c) (Compile.pushComplex c') := by
  intro ha ha'
  have hstored : ∀ d ∈ c.compounds, d.index < a.compounds.size := by
    refine List.forall_mem_cons.mpr ⟨hfirst.stored, fun d hd => ?_⟩
    obtain ⟨step, hstep, rfl⟩ := List.mem_map.mp hd
    exact (hjoined.stored step hstep).2
  have hstored' : ∀ d ∈ c'.compounds, d.index < a'.compounds.size := by
    refine List.forall_mem_cons.mpr ⟨hfirst.stored', fun d hd => ?_⟩
    obtain ⟨step, hstep, rfl⟩ := List.mem_map.mp hd
    exact (hjoined.stored' step hstep).2
  refine ⟨Arena.grows_pushComplex a c, Arena.grows_pushComplex a' c', ha.pushComplex hstored,
    ha'.pushComplex hstored', .ok ⟨lt_size_push, lt_size_push, ?_⟩⟩
  refine (ha.expandComplex_pushComplex hstored).trans
    (Eq.trans ?_ (ha'.expandComplex_pushComplex hstored').symm)
  have hfirst' : a.expandCompound c.first = a'.expandCompound c'.first := hfirst.expand
  rw [hleading, hfirst', htext, hdirection]
  exact congrArg (ComplexTree.mk _ _ · _ _) hjoined.expand

/-- Compounds of tests that expand to the same. -/
theorem pushCompound {d d' : Draft} (htests : Part.test.many.Same a a' d.simples d'.simples)
    (hpseudo : d.pseudoElement = d'.pseudoElement) :
    Twin Part.compound a a' (Compile.pushCompound d) (Compile.pushCompound d') := by
  intro ha ha'
  let D (a : Arena) (d : Draft) : Compound :=
    { simples := d.simples
      pseudoElement := d.pseudoElement
      hasNestedHas := d.simples.any fun s => a.bearsHas s && !isHas s
      containsHas := d.simples.any a.bearsHas
      matchOrder := matchOrder a d.simples }
  refine ⟨Arena.grows_pushCompound a (D a d), Arena.grows_pushCompound a' (D a' d'),
    ha.pushCompound htests.stored, ha'.pushCompound htests.stored',
    .ok ⟨lt_size_push, lt_size_push, ?_⟩⟩
  have hnested : (D a d).hasNestedHas = (D a' d').hasNestedHas :=
    any_eq_of_same htests a.nestsHas_eq a'.nestsHas_eq
  have hcontains : (D a d).containsHas = (D a' d').containsHas :=
    any_eq_of_same htests a.bearsHas_eq a'.bearsHas_eq
  have hranks : d.simples.map (rank a) = d'.simples.map (rank a') :=
    map_eq_of_same htests (rank_eq a) (rank_eq a')
  have hlength : d.simples.length = d'.simples.length := by
    rw [← List.length_map (rank a), hranks, List.length_map]
  have horder : (D a d).matchOrder = (D a' d').matchOrder := by
    change matchOrder a d.simples = matchOrder a' d'.simples
    unfold matchOrder
    rw [hranks, hlength]
  have hsimples : (D a d).simples.map (Arena.expandTest a.expand) =
      (D a' d').simples.map (Arena.expandTest a'.expand) := htests.expand
  refine (ha.expandCompound_pushCompound (D := D a d) htests.stored).trans
    (Eq.trans ?_ (ha'.expandCompound_pushCompound (D := D a' d') htests.stored').symm)
  rw [hsimples, hnested, hcontains, horder]
  exact congrArg (CompoundTree.mk _ · _ _ _) hpseudo

end Twin

end Compile

end Selectors

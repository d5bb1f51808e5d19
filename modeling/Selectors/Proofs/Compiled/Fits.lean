import Selectors.Proofs.Compiled.Builds

/-!
# What a compiled part fits

A part is compiled in a context, inside of an argument or not and inside of `:has()` or not, and it
gets a way.  What the part around it relies on follows from these: inside of an argument there are
neither slots nor pseudo-elements, and inside of `:has()` nothing asks for related elements again.

* `SimpleSelector.Fits`, `CompoundId.Fits`, `ComplexId.Fits` and `ListId.Fits` say this of the four
  kinds of part, and `StepsFit` of a row of compounds.
* Each of them lasts while more is stored.
-/

namespace Selectors

/-- A list that was compiled for an argument. -/
structure ListId.Fits (l : ListId) (ctx : CompileContext) (mode : ListMode) (r : Route)
    (F : Routes) (a : Arena) : Prop extends a.Argument mode l where
  route : F.list l = r
  hasFree : ctx.inHas = true → (a.list l).containsHas = false

/-- A test whose argument was compiled for it, on the way into the test. -/
structure SimpleSelector.Fits (s : SimpleSelector) (ctx : CompileContext) (r : Route) (F : Routes)
    (a : Arena) : Prop where
  arguments : ∀ mode l, s.argument? = some (mode, l) → a.Argument mode l
  route : ∀ l, s.nestedList? = some l → F.list l = r.into s
  related : ∀ l, s = .pseudo (.logical .has l) → (a.list l).containsHas = false
  hasFree : ctx.inHas = true → a.bearsHas s = false

/-- A compound that was compiled inside of an argument, or not. -/
structure CompoundId.Fits (d : CompoundId) (ctx : CompileContext) (r : Route) (F : Routes)
    (a : Arena) : Prop where
  stored : d.index < a.compounds.size
  route : F.compound d = r
  bare : ctx.nested = true → a.Bare d
  hasFree : ctx.inHas = true → (a.compound d).containsHas = false

/-- A complex selector that was compiled as a relative one, or not. -/
structure ComplexId.Fits (c : ComplexId) (ctx : CompileContext) (relative : Bool) (r : Route)
    (F : Routes) (a : Arena) : Prop where
  stored : c.index < a.complexes.size
  route : F.complex c = r
  leading : (a.complex c).leading.isSome = relative
  slotFree : ctx.nested = true → Combinator.slot ∉ (a.complex c).combinators
  bare : ctx.nested = true → ∀ d ∈ (a.complex c).compounds, a.Bare d
  hasFree : ctx.inHas = true → a.complexBearsHas c = false

/-- Steps of a complex selector whose last compound has the way `r`. -/
inductive StepsFit (ctx : CompileContext) (r : Route) (F : Routes) (a : Arena) :
    List (Combinator × CompoundId) → Prop
  | nil : StepsFit ctx r F a []
  | cons {q : Combinator} {d : CompoundId} {steps : List (Combinator × CompoundId)}
      (slotFree : ctx.nested = true → q ≠ .slot)
      (compound : d.Fits ctx (r.before (steps.map Prod.fst)) F a)
      (rest : StepsFit ctx r F a steps) : StepsFit ctx r F a ((q, d) :: steps)

/-- What is read of a compound: its tests stand on the way `r`, and what is in its slot on the way
`below`. -/
structure Compile.Draft.Fits (d : Compile.Draft) (ctx : CompileContext) (r below : Route)
    (F : Routes) (a : Arena) : Prop where
  tests : ∀ s ∈ d.simples, s.Fits ctx r F a
  bare : ctx.nested = true → d.pseudoElement = none
  slotted : ∀ c, d.slotted = some c → ctx.nested = false ∧ c.Fits ctx below F a

/-- A compiler of lists builds lists on any way. -/
def ListCompiler.Sound (nested : ListCompiler) : Prop :=
  ∀ (ctx : CompileContext) (mode : ListMode) (tokens : List Token) (text : String) (r : Route)
    (a : Arena), ctx.nested = true →
      BuildsFrom a (fun _ _ => True) (nested ctx mode tokens text) (ListId.Fits · ctx mode r)

/-! ### Facts that last -/

/-- The list in a test that fits is stored. -/
theorem SimpleSelector.Fits.stored {s : SimpleSelector} {ctx : CompileContext} {r : Route}
    {F : Routes} {a : Arena} (h : s.Fits ctx r F a) {l : ListId} (hl : s.nestedList? = some l) :
    l.index < a.lists.size := by
  obtain ⟨mode, hargument⟩ := SimpleSelector.exists_argument? hl
  exact (h.arguments mode l hargument).stored

/-- A test that fits fits when more is stored. -/
theorem SimpleSelector.fits_lasts (s : SimpleSelector) (ctx : CompileContext) (r : Route) :
    ArenaFact.Lasts (s.Fits ctx r) := by
  intro F F' a a' hF h hgrows hkeeps
  constructor
  · exact fun mode l hl => (h.arguments mode l hl).of_grows hF.toSound hgrows
  · intro l hl
    rw [hkeeps.list (h.stored hl)]
    exact h.route l hl
  · rintro l rfl
    rw [hgrows.list (h.stored rfl)]
    exact h.related l rfl
  · intro hin
    rw [Arena.bearsHas_of_grows hgrows fun l hl => h.stored hl]
    exact h.hasFree hin

/-- A compound that fits fits when more is stored. -/
theorem CompoundId.fits_lasts (d : CompoundId) (ctx : CompileContext) (r : Route) :
    ArenaFact.Lasts (d.Fits ctx r) := by
  intro F F' a a' hF h hgrows hkeeps
  constructor
  · exact Nat.lt_of_lt_of_le h.stored hgrows.compounds
  · exact (hkeeps.compound h.stored).trans h.route
  · exact fun hin => (h.bare hin).of_grows hgrows h.stored
  · rw [hgrows.compound h.stored]
    exact h.hasFree

/-- A complex selector that fits fits when more is stored. -/
theorem ComplexId.fits_lasts (c : ComplexId) (ctx : CompileContext) (relative : Bool)
    (r : Route) : ArenaFact.Lasts (c.Fits ctx relative r) := by
  intro F F' a a' hF h hgrows hkeeps
  have hcomplex := hgrows.complex h.stored
  have hcompounds := (hF.complexes h.stored).compounds
  constructor
  · exact Nat.lt_of_lt_of_le h.stored hgrows.complexes
  · exact (hkeeps.complex h.stored).trans h.route
  · rw [hcomplex]
    exact h.leading
  · rw [hcomplex]
    exact h.slotFree
  · rw [hcomplex]
    exact fun hin d hd => (h.bare hin d hd).of_grows hgrows (hcompounds d hd)
  · rw [hF.complexBearsHas_of_grows hgrows h.stored]
    exact h.hasFree

/-- A row of compounds that fits fits when more is stored. -/
theorem StepsFit.lasts (ctx : CompileContext) (r : Route)
    (steps : List (Combinator × CompoundId)) :
    ArenaFact.Lasts fun F a => StepsFit ctx r F a steps := by
  intro F F' a a' hF h hgrows hkeeps
  induction h with
  | nil => exact StepsFit.nil
  | cons hslot hcompound _ ih =>
      exact StepsFit.cons hslot (CompoundId.fits_lasts _ _ _ hF hcompound hgrows hkeeps) ih

/-- A draft that fits fits when more is stored. -/
theorem Compile.Draft.fits_lasts (d : Compile.Draft) (ctx : CompileContext) (r below : Route) :
    ArenaFact.Lasts (d.Fits ctx r below) := by
  intro F F' a a' hF h hgrows hkeeps
  constructor
  · exact fun s hs => s.fits_lasts ctx r hF (h.tests s hs) hgrows hkeeps
  · exact h.bare
  · intro c hc
    obtain ⟨houter, hfits⟩ := h.slotted c hc
    exact ⟨houter, c.fits_lasts ctx below hF hfits hgrows hkeeps⟩

/-! ### Rows of compounds -/

namespace StepsFit

variable {ctx : CompileContext} {r : Route} {F : Routes} {a : Arena}
  {steps : List (Combinator × CompoundId)}

/-- Each compound of the row fits some way. -/
theorem fits_of_mem (h : StepsFit ctx r F a steps) :
    ∀ d ∈ steps.map Prod.snd, ∃ r', d.Fits ctx r' F a := by
  induction h with
  | nil => exact fun d hd => absurd hd List.not_mem_nil
  | cons _ hcompound _ ih =>
      intro d hd
      rcases List.mem_cons.mp hd with rfl | hd
      · exact ⟨_, hcompound⟩
      · exact ih d hd

/-- Inside an argument no compound is joined through a slot. -/
theorem slotFree (h : StepsFit ctx r F a steps) (hnested : ctx.nested = true) :
    Combinator.slot ∉ steps.map Prod.fst := by
  induction h with
  | nil => exact List.not_mem_nil
  | cons hslot _ _ ih =>
      intro hmem
      rcases List.mem_cons.mp hmem with heq | hmem
      · exact hslot hnested heq.symm
      · exact ih hmem

/-- Each compound of a row that fits has the way to its place. -/
theorem covers (h : StepsFit ctx r F a steps) {c : CompoundId}
    (hc : F.compound c = r.before (steps.map Prod.fst)) : F.Covers r c steps := by
  induction h generalizing c with
  | nil => exact hc
  | cons _ hcompound _ ih => exact ⟨hc, ih hcompound.route⟩

/-- Steps before other steps: the first ones end where the others begin. -/
theorem append {first : List (Combinator × CompoundId)}
    (hfirst : StepsFit ctx (r.before (steps.map Prod.fst)) F a first)
    (h : StepsFit ctx r F a steps) : StepsFit ctx r F a (first ++ steps) := by
  induction hfirst with
  | nil => exact h
  | cons hslot hcompound _ ih =>
      refine cons hslot ?_ ih
      rw [← Route.before_append, ← List.map_append] at hcompound
      exact hcompound

end StepsFit

end Selectors

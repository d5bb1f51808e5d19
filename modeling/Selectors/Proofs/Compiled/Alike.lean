import Mathlib.Data.List.Forall2
import Selectors.Compiled.Compile
import Selectors.Proofs.Compiled.Sound
import Selectors.Proofs.Running

/-!
# Compiling twice

Two runs of the compiler end alike if both fail, or if both succeed with related results, and if the
arenas that they leave differ in nothing but the texts of complex selectors.  No part that is stored
later depends on these texts.  So a relation between the steps of two compilations is kept when they
are put together, and also when a failure is forgiven, because a run that fails leaves an arena,
too.

* `Arena.wordless` is an arena without the texts.
* `Compile.Alike` relates two compilations; `Compile.Alike.bind`, `Compile.Alike.forgive`,
  `Compile.Alike.mapM`, `Compile.Alike.filterMapM` and `Compile.Alike.foldlM` put steps together.
-/

namespace Selectors

/-- The selector without its text, for which no matching asks. -/
def ComplexSelector.wordless (c : ComplexSelector) : ComplexSelector :=
  { c with text := "" }

namespace Arena

/-- The arena without the texts of its complex selectors. -/
def wordless (a : Arena) : Arena :=
  { a with complexes := a.complexes.map ComplexSelector.wordless }

variable {a a' : Arena}

/-- A complex selector of an arena without texts is the same one without its text. -/
@[simp]
theorem wordless_complex (a : Arena) (c : ComplexId) :
    a.wordless.complex c = (a.complex c).wordless := by
  unfold complex wordless
  rw [Array.getElem?_map]
  cases a.complexes[c.index]? <;> rfl

/-- Which tests bear a `:has()` does not depend on texts. -/
theorem wordless_bearsHas (a : Arena) (s : SimpleSelector) :
    a.wordless.bearsHas s = a.bearsHas s := rfl

/-- Which complex selectors bear a `:has()` does not depend on texts. -/
theorem wordless_complexBearsHas (a : Arena) (c : ComplexId) :
    a.wordless.complexBearsHas c = a.complexBearsHas c := by
  unfold complexBearsHas
  rw [wordless_complex]
  rfl

/-- Arenas that differ in texts only have the same tests bear a `:has()`. -/
theorem bearsHas_of_wordless (h : a.wordless = a'.wordless) : a.bearsHas = a'.bearsHas := by
  funext s
  rw [← wordless_bearsHas, h, wordless_bearsHas]

/-- Arenas that differ in texts only have the same complex selectors bear a `:has()`. -/
theorem complexBearsHas_of_wordless (h : a.wordless = a'.wordless) :
    a.complexBearsHas = a'.complexBearsHas := by
  funext c
  rw [← wordless_complexBearsHas, h, wordless_complexBearsHas]

theorem lists_of_wordless (h : a.wordless = a'.wordless) : a.lists = a'.lists := by
  change a.wordless.lists = a'.wordless.lists
  rw [h]

theorem compounds_of_wordless (h : a.wordless = a'.wordless) : a.compounds = a'.compounds := by
  change a.wordless.compounds = a'.wordless.compounds
  rw [h]

theorem complexes_of_wordless (h : a.wordless = a'.wordless) :
    a.complexes.map ComplexSelector.wordless = a'.complexes.map ComplexSelector.wordless :=
  congrArg Arena.complexes h

theorem size_complexes_of_wordless (h : a.wordless = a'.wordless) :
    a.complexes.size = a'.complexes.size := by
  have hsize := congrArg Array.size (complexes_of_wordless h)
  rwa [Array.size_map, Array.size_map] at hsize

/-- What is stored in an arena is stored without its texts, too. -/
theorem Grows.wordless (h : a.Grows a') : a.wordless.Grows a'.wordless where
  lists := h.lists
  complexes := by
    unfold Arena.wordless
    rw [Array.size_map, Array.size_map]
    exact h.complexes
  compounds := h.compounds
  list hl := h.list hl
  complex hc := by
    unfold Arena.wordless at hc
    rw [Array.size_map] at hc
    rw [wordless_complex, wordless_complex, h.complex hc]
  compound hd := h.compound hd

end Arena

namespace Compile

variable {α β γ δ : Type} {V : α → β → Prop} {W : γ → δ → Prop}

/-- The ends of two runs: both failed, or both have a result, and the arenas are the same but for
texts. -/
inductive EndsAlike (V : α → β → Prop) :
    Except SelectorError α × Arena → Except SelectorError β × Arena → Prop
  | error {e e' : SelectorError} {a a' : Arena} (h : a.wordless = a'.wordless) :
      EndsAlike V (.error e, a) (.error e', a')
  | ok {v : α} {w : β} {a a' : Arena} (hv : V v w) (h : a.wordless = a'.wordless) :
      EndsAlike V (.ok v, a) (.ok w, a')

/-- From arenas that are the same but for texts both compilations end alike. -/
def Alike (V : α → β → Prop) (x : Compile α) (y : Compile β) : Prop :=
  ∀ a a' : Arena, a.wordless = a'.wordless → EndsAlike V (runFrom x a) (runFrom y a')

namespace Alike

/-! ### Single steps -/

theorem pure {v : α} {w : β} (h : V v w) : Alike V (Pure.pure v) (Pure.pure w) :=
  fun _ _ ha => .ok h ha

theorem throw (e e' : SelectorError) : Alike V (throw e) (throw e') :=
  fun _ _ ha => .error ha

/-- Two looks at the arena see the same but for texts. -/
theorem get : Alike (fun a a' : Arena => a.wordless = a'.wordless) get get :=
  fun _ _ ha => .ok ha ha

/-- Something needed is there for both compilations, or it is missing for both. -/
theorem need (e e' : SelectorError) (o : Option α) : Alike Eq (need e o) (need e' o) := by
  cases o with
  | none => exact throw e e'
  | some v => exact pure rfl

/-- **Two steps** that go on alike. -/
theorem bind {x : Compile α} {y : Compile β} {f : α → Compile γ} {g : β → Compile δ}
    (hx : Alike V x y) (hf : ∀ v w, V v w → Alike W (f v) (g w)) :
    Alike W (x >>= f) (y >>= g) := by
  intro a a' ha
  have hends := hx a a' ha
  rw [runFrom_bind, runFrom_bind]
  generalize runFrom x a = p, runFrom y a' = q at hends
  cases hends with
  | error hb => exact .error hb
  | ok hv hb => exact hf _ _ hv _ _ hb

/-- What is made of related results is related if the two functions say so. -/
theorem map {x : Compile α} {y : Compile β} {f : α → γ} {g : β → δ} (hx : Alike V x y)
    (hf : ∀ v w, V v w → W (f v) (g w)) : Alike W (f <$> x) (g <$> y) := by
  rw [map_eq_pure_bind, map_eq_pure_bind]
  exact bind hx fun v w h => pure (hf v w h)

theorem throw_bind (e e' : SelectorError) (f : α → Compile γ) (g : β → Compile δ) :
    Alike W (MonadExcept.throw e >>= f) (MonadExcept.throw e' >>= g) :=
  throw e e'

/-- Failures that are forgiven alike. -/
theorem forgive {x : Compile α} {y : Compile β} {x' : Compile α} {y' : Compile β}
    (hx : Alike V x y) (hx' : Alike V x' y') :
    Alike V (tryCatch x fun _ => x') (tryCatch y fun _ => y') := by
  intro a a' ha
  have hends := hx a a' ha
  rw [runFrom_tryCatch, runFrom_tryCatch]
  generalize runFrom x a = p, runFrom y a' = q at hends
  cases hends with
  | error hb => exact hx' _ _ hb
  | ok hv hb => exact .ok hv hb

/-! ### Rows of steps -/

variable {R : α → β → Prop} {xs : List α} {ys : List β}

/-- Rows of steps end alike if the steps do, one with the other. -/
theorem mapM {f : α → Compile γ} {g : β → Compile δ} (hxs : List.Forall₂ R xs ys)
    (hf : ∀ x y, R x y → Alike W (f x) (g y)) :
    Alike (List.Forall₂ W) (xs.mapM f) (ys.mapM g) := by
  induction hxs with
  | nil => exact pure .nil
  | cons hxy _ ih =>
      rw [List.mapM_cons, List.mapM_cons]
      refine bind (hf _ _ hxy) fun v w hv => ?_
      exact bind ih fun vs ws hvs => pure (.cons hv hvs)

/-- Rows of steps of which some give nothing end alike if the steps do. -/
theorem filterMapM {f : α → Compile (Option γ)} {g : β → Compile (Option γ)}
    (hxs : List.Forall₂ R xs ys) (hf : ∀ x y, R x y → Alike Eq (f x) (g y)) :
    Alike Eq (xs.filterMapM f) (ys.filterMapM g) := by
  induction hxs with
  | nil => exact pure rfl
  | cons hxy _ ih =>
      rw [List.filterMapM_cons, List.filterMapM_cons]
      refine bind (hf _ _ hxy) ?_
      rintro o _ rfl
      cases o with
      | none => exact ih
      | some v =>
          refine bind ih ?_
          rintro vs _ rfl
          exact pure rfl

/-- Folds end alike if their steps do. -/
theorem foldlM {f : γ → α → Compile γ} {g : γ → β → Compile γ} (hxs : List.Forall₂ R xs ys)
    (hf : ∀ v x y, R x y → Alike Eq (f v x) (g v y)) (v : γ) :
    Alike Eq (xs.foldlM f v) (ys.foldlM g v) := by
  induction hxs generalizing v with
  | nil => exact pure rfl
  | cons hxy _ ih =>
      rw [List.foldlM_cons, List.foldlM_cons]
      refine bind (hf v _ _ hxy) ?_
      rintro w _ rfl
      exact ih w

/-! ### Storing -/

/-- Storing a list ends alike. -/
theorem pushList (cs : List ComplexId) : Alike Eq (pushList cs) (pushList cs) := by
  intro a a' ha
  change EndsAlike Eq
    (.ok _, { a with lists := a.lists.push ⟨cs, cs.any a.complexBearsHas⟩ })
    (.ok _, { a' with lists := a'.lists.push ⟨cs, cs.any a'.complexBearsHas⟩ })
  refine EndsAlike.ok ?_ ?_
  · exact congrArg (fun lists => ListId.mk lists.size) (Arena.lists_of_wordless ha)
  · unfold Arena.wordless
    dsimp only
    rw [Arena.lists_of_wordless ha, Arena.compounds_of_wordless ha, Arena.complexes_of_wordless ha,
      Arena.complexBearsHas_of_wordless ha]

/-- Storing complex selectors that differ in their texts ends alike. -/
theorem pushComplex {c c' : ComplexSelector} (h : c.wordless = c'.wordless) :
    Alike Eq (pushComplex c) (pushComplex c') := by
  intro a a' ha
  change EndsAlike Eq (.ok _, { a with complexes := a.complexes.push c })
    (.ok _, { a' with complexes := a'.complexes.push c' })
  refine EndsAlike.ok ?_ ?_
  · exact congrArg ComplexId.mk (Arena.size_complexes_of_wordless ha)
  · unfold Arena.wordless
    dsimp only
    rw [Arena.lists_of_wordless ha, Arena.compounds_of_wordless ha, Array.map_push, Array.map_push,
      Arena.complexes_of_wordless ha, h]

/-- The rank of a test does not depend on texts. -/
theorem rank_of_wordless {a a' : Arena} (h : a.wordless = a'.wordless) : rank a = rank a' := by
  funext s
  unfold rank
  rw [Arena.bearsHas_of_wordless h]

/-- Storing a compound ends alike: its order of tests goes by their ranks. -/
theorem pushCompound (d : Draft) : Alike Eq (pushCompound d) (pushCompound d) := by
  intro a a' ha
  let stored (a : Arena) : Compound :=
    { simples := d.simples
      pseudoElement := d.pseudoElement
      hasNestedHas := d.simples.any fun s => a.bearsHas s && !isHas s
      containsHas := d.simples.any a.bearsHas
      matchOrder := matchOrder a d.simples }
  have hstored : stored a = stored a' := by
    dsimp only [stored]
    unfold matchOrder
    rw [Arena.bearsHas_of_wordless ha, rank_of_wordless ha]
  change EndsAlike Eq (.ok _, { a with compounds := a.compounds.push (stored a) })
    (.ok _, { a' with compounds := a'.compounds.push (stored a') })
  refine EndsAlike.ok ?_ ?_
  · exact congrArg (fun compounds => CompoundId.mk compounds.size) (Arena.compounds_of_wordless ha)
  · unfold Arena.wordless
    dsimp only
    rw [Arena.lists_of_wordless ha, Arena.compounds_of_wordless ha, Arena.complexes_of_wordless ha,
      hstored]

end Alike

end Compile

end Selectors

import Selectors.Proofs.Compiled.Routes
import Selectors.Proofs.Running

/-!
# What compiling stores

Compiling only stores, in whatever way it ends, and every description of the arena before goes on to
one of the arena after.  The new parts can be given any way that is wanted: a call does not know
where its result will stand.  So a specification of a step starts from a description and ends with
one that says where the result stands.

* `BuildsFrom` is the specification of a step from one arena.
* `BuildsFrom.bind`, `BuildsFrom.frame`, `BuildsFrom.mapM`, `BuildsFrom.filterMapM` and
  `BuildsFrom.foldlM` put steps together.
-/

namespace Selectors

/-- A fact about an arena and the ways of its parts. -/
abbrev ArenaFact := Routes → Arena → Prop

/-- From the arena `a` with the description `F` more was stored, and the description goes on to one
with the fact `P`. -/
def Routes.Extends (F : Routes) (a : Arena) (P : ArenaFact) (a' : Arena) : Prop :=
  a.Grows a' ∧ ∃ F' : Routes, F.Keeps F' a ∧ F'.Describes a' ∧ P F' a'

/-- A step from the arena `a` stores, and every description with the fact `P` goes on to one in
which the result has the fact `Q`. -/
def BuildsFrom {α : Type} (a : Arena) (P : ArenaFact) (x : Compile α) (Q : α → ArenaFact) : Prop :=
  ∀ F : Routes, F.Describes a → P F a →
    Meets (· = a) x (fun v => F.Extends a (Q v)) fun _ => F.Extends a fun _ _ => True

/-- A fact about stored parts stays true while more is stored. -/
def ArenaFact.Lasts (P : ArenaFact) : Prop :=
  ∀ {F F' : Routes} {a a' : Arena}, F.Describes a → P F a → a.Grows a' → F.Keeps F' a → P F' a'

namespace Routes.Extends

variable {F F' : Routes} {a a' a'' : Arena} {P Q : ArenaFact}

/-- Nothing was stored yet. -/
theorem refl (hF : F.Describes a) (hP : P F a) : F.Extends a P a :=
  ⟨Arena.Grows.refl a, F, Routes.Keeps.refl F a, hF, hP⟩

/-- What an extension establishes may be weakened. -/
theorem mono (h : F.Extends a P a') (hPQ : ∀ F', F'.Describes a' → P F' a' → Q F' a') :
    F.Extends a Q a' := by
  obtain ⟨hgrows, F', hkeeps, hF', hP⟩ := h
  exact ⟨hgrows, F', hkeeps, hF', hPQ F' hF' hP⟩

/-- More was stored after more was stored. -/
theorem trans (hgrows : a.Grows a') (hkeeps : F.Keeps F' a) (h : F'.Extends a' P a'') :
    F.Extends a P a'' := by
  obtain ⟨hgrows', F'', hkeeps', hF'', hP⟩ := h
  exact ⟨hgrows.trans hgrows', F'', hkeeps.trans hkeeps' hgrows, hF'', hP⟩

end Routes.Extends

namespace BuildsFrom

variable {α β : Type} {a : Arena} {P P' S : ArenaFact} {x : Compile α} {Q Q' : α → ArenaFact}

/-! ### Single steps -/

theorem pure {v : α} (h : ∀ F, F.Describes a → P F a → Q v F a) :
    BuildsFrom a P (Pure.pure v) Q := by
  intro F hF hP
  refine Meets.pure ?_
  rintro _ rfl
  exact .refl hF (h F hF hP)

theorem throw (e : SelectorError) : BuildsFrom a P (throw e) Q := by
  intro F hF hP
  refine Meets.throw ?_
  rintro _ rfl
  exact .refl hF trivial

theorem get {Q : Arena → ArenaFact} (h : ∀ F, F.Describes a → P F a → Q a F a) :
    BuildsFrom a P get Q := by
  rintro F hF hP _ rfl
  exact .refl hF (h F hF hP)

/-- A step of which the run is known. -/
theorem of_run {v : α} {a' : Arena} (hrun : runFrom x a = (.ok v, a'))
    (h : ∀ F, F.Describes a → P F a → F.Extends a (Q v) a') : BuildsFrom a P x Q := by
  rintro F hF hP _ rfl
  rw [hrun]
  exact h F hF hP

/-- The rule of consequence. -/
theorem weaken (h : BuildsFrom a P x Q) (hP : ∀ F, F.Describes a → P' F a → P F a)
    (hQ : ∀ v F a', F.Describes a' → Q v F a' → Q' v F a') : BuildsFrom a P' x Q' :=
  fun F hF hP' => (h F hF (hP F hF hP')).ending fun v a' hv =>
    hv.mono fun F' hF' => hQ v F' a' hF'

/-- Less is said of what it builds. -/
theorem ending (h : BuildsFrom a P x Q) (hQ : ∀ v F a', F.Describes a' → Q v F a' → Q' v F a') :
    BuildsFrom a P x Q' :=
  h.weaken (fun _ _ hP => hP) hQ

/-- A result of a step in an arena that has a description. -/
theorem exists_of_runFrom (h : BuildsFrom a (fun _ _ => True) x Q) {F : Routes}
    (hF : F.Describes a) {v : α} {a' : Arena} (hrun : runFrom x a = (.ok v, a')) :
    ∃ F' : Routes, F'.Describes a' ∧ Q v F' a' := by
  obtain ⟨-, F', -, hF', hv⟩ := (h F hF trivial).of_ok rfl hrun
  exact ⟨F', hF', hv⟩

/-- However a step ends, it has only stored. -/
theorem extends_run (h : BuildsFrom a P x Q) {F : Routes} (hF : F.Describes a) (hP : P F a) :
    F.Extends a (fun _ _ => True) (runFrom x a).2 := by
  rcases hrun : runFrom x a with ⟨e | v, a'⟩
  · exact (h F hF hP).of_error rfl hrun
  · exact ((h F hF hP).of_ok rfl hrun).mono fun _ _ _ => trivial

/-- A condition that no arena decides. -/
theorem of_holds {p : Prop} (h : p → BuildsFrom a (fun _ _ => True) x Q) :
    BuildsFrom a (fun _ _ => p) x Q :=
  fun F hF hp => h hp F hF trivial

/-- What holds of the parts stored before still holds after a step. -/
theorem frame (hS : S.Lasts) (h : BuildsFrom a P x Q) (hP : ∀ F, P' F a → P F a ∧ S F a) :
    BuildsFrom a P' x (fun v F a => Q v F a ∧ S F a) := by
  intro F hF hP'
  obtain ⟨hbefore, hstays⟩ := hP F hP'
  refine (h F hF hbefore).ending fun v a' hv => ?_
  obtain ⟨hgrows, F', hkeeps, hF', hv⟩ := hv
  exact ⟨hgrows, F', hkeeps, hF', hv, hS hF hstays hgrows hkeeps⟩

/-- A step goes on from what was stored before. -/
theorem after {F : Routes} (h : ∀ a', BuildsFrom a' P x Q) :
    Meets (F.Extends a P) x (fun v => F.Extends a (Q v)) fun _ => F.Extends a fun _ _ => True := by
  refine Meets.of_each fun a' ha' => ?_
  obtain ⟨hgrows, F', hkeeps, hF', hP⟩ := ha'
  exact (h a' F' hF' hP).weaken (fun _ ha => ha) (fun _ _ hv => hv.trans hgrows hkeeps)
    fun _ _ he => he.trans hgrows hkeeps

/-- **Two steps** build what the second builds from where the first ends. -/
theorem bind {f : α → Compile β} {R : β → ArenaFact} (hx : BuildsFrom a P x Q)
    (hf : ∀ v a', runFrom x a = (.ok v, a') → BuildsFrom a' (Q v) (f v) R) :
    BuildsFrom a P (x >>= f) R := by
  intro F hF hP
  have hends : Meets (· = a) x (fun v a' => F.Extends a (Q v) a' ∧ runFrom x a = (.ok v, a'))
      fun _ => F.Extends a fun _ _ => True := by
    refine Meets.of_runs ?_ ?_
    · rintro _ v a' rfl hrun
      exact ⟨(hx F hF hP).of_ok rfl hrun, hrun⟩
    · rintro _ e a' rfl hrun
      exact (hx F hF hP).of_error rfl hrun
  refine Meets.bind hends fun v => Meets.of_each fun a' ha' => ?_
  obtain ⟨⟨hgrows, F', hkeeps, hF', hv⟩, hrun⟩ := ha'
  exact (hf v a' hrun F' hF' hv).weaken (fun _ ha => ha) (fun _ _ hw => hw.trans hgrows hkeeps)
    fun _ _ he => he.trans hgrows hkeeps

theorem map {g : α → β} {R : β → ArenaFact} (hx : BuildsFrom a P x Q)
    (hg : ∀ v F a', F.Describes a' → Q v F a' → R (g v) F a') : BuildsFrom a P (g <$> x) R := by
  rw [map_eq_pure_bind]
  exact bind hx fun v a' _ => pure fun F hF h => hg v F a' hF h

theorem throw_bind (e : SelectorError) (f : α → Compile β) {R : β → ArenaFact} :
    BuildsFrom a P (MonadExcept.throw e >>= f) R :=
  throw e

/-- A step whose failure is forgiven. -/
theorem forgive {y : Compile α} (hx : BuildsFrom a P x Q)
    (hy : ∀ a', BuildsFrom a' (fun _ _ => True) y Q) :
    BuildsFrom a P (tryCatch x fun _ => y) Q :=
  fun F hF hP => Meets.tryCatch (hx F hF hP) fun _ => after hy

/-! ### Rows of steps -/

/-- A fact about results so far, with one more result. -/
private theorem after_result {R : β → ArenaFact} (hR : ∀ v, (R v).Lasts) {x : Compile α}
    {F : Routes} (more : α → List β) (vs : List β)
    (hx : ∀ a, BuildsFrom a (fun _ _ => True) x fun w F a => ∀ v ∈ more w, R v F a) :
    Meets (F.Extends a fun F a => ∀ v ∈ vs, R v F a) x
      (fun w => F.Extends a fun F a => ∀ v ∈ vs ++ more w, R v F a)
      fun _ => F.Extends a fun _ _ => True := by
  have hlasts : ArenaFact.Lasts fun F a => ∀ v ∈ vs, R v F a :=
    fun hF hvs hgrows hkeeps v hv => hR v hF (hvs v hv) hgrows hkeeps
  refine after fun a' => ?_
  have hboth : BuildsFrom a' (fun F a => ∀ v ∈ vs, R v F a) x fun w F a =>
      (∀ v ∈ more w, R v F a) ∧ ∀ v ∈ vs, R v F a :=
    frame hlasts (hx a') fun F h => ⟨trivial, h⟩
  exact hboth.ending fun w F' a'' _ h => List.forall_mem_append.mpr ⟨h.2, h.1⟩

/-- A row of steps builds what each of them builds, because it lasts. -/
theorem mapM {f : α → Compile β} {R : β → ArenaFact} (hR : ∀ v, (R v).Lasts) (xs : List α)
    (hf : ∀ x ∈ xs, ∀ a, BuildsFrom a (fun _ _ => True) (f x) R) (a : Arena) :
    BuildsFrom a (fun _ _ => True) (xs.mapM f) (fun vs F a => ∀ v ∈ vs, R v F a) := by
  intro F hF _
  refine (Meets.mapM (fun vs => F.Extends a fun F a => ∀ v ∈ vs, R v F a)
    fun x hx vs => ?_).starting ?_
  · exact after_result hR (fun v => [v]) vs fun a' => (hf x hx a').ending fun v F' a'' _ hv =>
      List.forall_mem_singleton.mpr hv
  · rintro _ rfl
    exact .refl hF fun v hv => absurd hv List.not_mem_nil

/-- A row of steps of which some give nothing builds what the others build. -/
theorem filterMapM {f : α → Compile (Option β)} {R : β → ArenaFact} (hR : ∀ v, (R v).Lasts)
    (xs : List α)
    (hf : ∀ x ∈ xs, ∀ a, BuildsFrom a (fun _ _ => True) (f x)
      fun o F a => ∀ v, o = some v → R v F a) (a : Arena) :
    BuildsFrom a (fun _ _ => True) (xs.filterMapM f) (fun vs F a => ∀ v ∈ vs, R v F a) := by
  intro F hF _
  refine (Meets.filterMapM (fun vs => F.Extends a fun F a => ∀ v ∈ vs, R v F a)
    fun x hx vs => ?_).starting ?_
  · exact after_result hR Option.toList vs fun a' => (hf x hx a').ending fun o F' a'' _ ho v hv =>
      ho v (Option.mem_toList.mp hv)
  · rintro _ rfl
    exact .refl hF fun v hv => absurd hv List.not_mem_nil

/-- A fold keeps what each of its steps keeps. -/
theorem foldlM {f : β → α → Compile β} {R : β → ArenaFact} (xs : List α)
    (hf : ∀ x ∈ xs, ∀ v a, BuildsFrom a (R v) (f v x) R) (v : β) (a : Arena) :
    BuildsFrom a (R v) (xs.foldlM f v) R := by
  intro F hF hv
  refine (Meets.foldlM (fun v => F.Extends a (R v)) (fun x hx v => after (hf x hx v)) v).starting ?_
  rintro _ rfl
  exact .refl hF hv

end BuildsFrom

end Selectors

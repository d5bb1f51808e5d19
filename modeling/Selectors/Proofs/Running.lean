import Mathlib.Data.List.Forall2
import Selectors.Error

/-!
# Computations that may fail and that keep a state

Compiling keeps an arena and matching a memory, and both may fail.  A computation of either kind is
a function from a state to a result and the state after it, which it keeps when it fails.  These
are the equations of its steps.

* `runFrom` runs a computation.
* `runFrom_bind` is the equation of a row of two.
* `Meets` is the specification of a computation: what it starts from, and what it ends in where it
  succeeds and where it fails.  There is a rule for each way to put computations together.
* `Returns` is what holds of every result.
* `mapM_eq_ok_iff` and `mapM_eq_error_iff` are about rows of results without a state: all are given,
  or the first failure is.
-/

namespace Selectors

variable {S α β : Type}

/-- The result of a computation from a state, and the state after it. -/
def runFrom (x : ExceptT SelectorError (StateM S) α) (s : S) : Except SelectorError α × S :=
  x.run.run s

variable {x : ExceptT SelectorError (StateM S) α} {f : α → ExceptT SelectorError (StateM S) β}

@[simp] theorem runFrom_pure (a : α) (s : S) :
    runFrom (pure a) s = (.ok a, s) := rfl

@[simp] theorem runFrom_throw (e : SelectorError) (s : S) :
    runFrom (throw e : ExceptT SelectorError (StateM S) α) s = (.error e, s) := rfl

@[simp] theorem runFrom_get (s : S) :
    runFrom (get : ExceptT SelectorError (StateM S) S) s = (.ok s, s) := rfl

@[simp] theorem runFrom_set (s s' : S) :
    runFrom (set s' : ExceptT SelectorError (StateM S) PUnit) s = (.ok ⟨⟩, s') := rfl

@[simp] theorem runFrom_modify (g : S → S) (s : S) :
    runFrom (modify g : ExceptT SelectorError (StateM S) PUnit) s = (.ok ⟨⟩, g s) := rfl

/-- **Two steps**: the second goes on from the state that the first leaves, and a failure ends
both. -/
theorem runFrom_bind (x : ExceptT SelectorError (StateM S) α)
    (f : α → ExceptT SelectorError (StateM S) β) (s : S) :
    runFrom (x >>= f) s =
      match runFrom x s with
      | (.ok a, s') => runFrom (f a) s'
      | (.error e, s') => (.error e, s') := by
  change (ExceptT.bindCont f (runFrom x s).1).run (runFrom x s).2 = _
  rcases runFrom x s with ⟨_ | a, s'⟩ <;> rfl

theorem runFrom_bind_ok {s s' : S} {a : α} (hx : runFrom x s = (.ok a, s')) :
    runFrom (x >>= f) s = runFrom (f a) s' := by
  rw [runFrom_bind, hx]

theorem runFrom_bind_error {s s' : S} {e : SelectorError} (hx : runFrom x s = (.error e, s')) :
    runFrom (x >>= f) s = (.error e, s') := by
  rw [runFrom_bind, hx]

/-- The result of two steps of which the first fails. -/
theorem result_bind_error {s : S} {e : SelectorError} (hx : (runFrom x s).1 = .error e) :
    (runFrom (x >>= f) s).1 = .error e := by
  rw [runFrom_bind_error (Prod.ext hx rfl)]

/-- A row of two that succeeds: both do. -/
theorem exists_of_runFrom_bind {s s' : S} {b : β} (hxf : runFrom (x >>= f) s = (.ok b, s')) :
    ∃ a s'', runFrom x s = (.ok a, s'') ∧ runFrom (f a) s'' = (.ok b, s') := by
  rw [runFrom_bind] at hxf
  rcases hx : runFrom x s with ⟨_ | a, s''⟩
  · rw [hx] at hxf
    cases hxf
  · rw [hx] at hxf
    exact ⟨a, s'', rfl, hxf⟩

/-- **Handling a failure**: the handler goes on from the state that the failure leaves. -/
theorem runFrom_tryCatch (x : ExceptT SelectorError (StateM S) α)
    (handle : SelectorError → ExceptT SelectorError (StateM S) α) (s : S) :
    runFrom (tryCatch x handle) s =
      match runFrom x s with
      | (.ok a, s') => (.ok a, s')
      | (.error e, s') => runFrom (handle e) s' := by
  unfold runFrom
  rw [ExceptT.run_tryCatch, StateT.run_bind]
  rcases x.run.run s with ⟨_ | a, s'⟩ <;> rfl

/-! ### Rows of tests -/

/-- What a filter has kept before stands in front of what it keeps from now on. -/
private theorem filterAuxM_eq (p : α → ExceptT SelectorError (StateM S) Bool) (xs acc : List α) :
    xs.filterAuxM p acc = (fun ys => ys ++ acc) <$> xs.filterAuxM p [] := by
  induction xs generalizing acc with
  | nil => simp [List.filterAuxM]
  | cons x xs ih =>
      simp only [List.filterAuxM, map_bind]
      congr 1
      funext b
      rw [ih, ih (cond b [x] [])]
      cases b <;> simp

/-- Filtering tests the first element and goes on with the rest. -/
theorem filterM_cons (p : α → ExceptT SelectorError (StateM S) Bool) (x : α) (xs : List α) :
    (x :: xs).filterM p = do
      let b ← p x
      let ys ← xs.filterM p
      return cond b (x :: ys) ys := by
  unfold List.filterM
  simp only [List.filterAuxM, bind_assoc, pure_bind]
  congr 1
  funext b
  rw [filterAuxM_eq]
  cases b <;> simp

/-- A row of tests that succeeds: each of them does. -/
theorem exists_of_runFrom_allM {p : α → ExceptT SelectorError (StateM S) Bool} {xs : List α}
    {s s' : S} (hall : runFrom (xs.allM p) s = (.ok true, s')) :
    ∀ x ∈ xs, ∃ s₁ s₂, runFrom (p x) s₁ = (.ok true, s₂) := by
  induction xs generalizing s with
  | nil =>
      intro x hx
      exact absurd hx List.not_mem_nil
  | cons y xs ih =>
      obtain ⟨b, s'', hy, hrest⟩ := exists_of_runFrom_bind hall
      cases b with
      | false => cases hrest
      | true =>
          intro x hx
          rcases List.mem_cons.mp hx with rfl | hx
          · exact ⟨s, s'', hy⟩
          · exact ih hrest x hx

/-- A row of steps that succeeds has a result for each of them. -/
theorem length_of_runFrom_mapM {f : α → ExceptT SelectorError (StateM S) β} {xs : List α}
    {ys : List β} {s s' : S} (hrun : runFrom (xs.mapM f) s = (.ok ys, s')) :
    ys.length = xs.length := by
  induction xs generalizing ys s with
  | nil =>
      cases hrun
      rfl
  | cons x xs ih =>
      rw [List.mapM_cons] at hrun
      obtain ⟨y, s₁, -, hrun⟩ := exists_of_runFrom_bind hrun
      obtain ⟨rest, s₂, hrest, hrun⟩ := exists_of_runFrom_bind hrun
      cases hrun
      rw [List.length_cons, List.length_cons, ih hrest]

/-! ### Specifications -/

/-- From every state with `P` the computation ends in a result and a state with `Q`, or in a failure
and a state with `E`. -/
def Meets (P : S → Prop) (x : ExceptT SelectorError (StateM S) α) (Q : α → S → Prop)
    (E : SelectorError → S → Prop) : Prop :=
  ∀ s, P s →
    match runFrom x s with
    | (.ok v, s') => Q v s'
    | (.error e, s') => E e s'

namespace Meets

variable {P P' : S → Prop} {Q Q' : α → S → Prop} {R : β → S → Prop}
  {E E' : SelectorError → S → Prop}

/-- What a specification says of a run that succeeds. -/
theorem of_ok (h : Meets P x Q E) {s s' : S} {v : α} (hs : P s)
    (hrun : runFrom x s = (.ok v, s')) : Q v s' := by
  have hends := h s hs
  rw [hrun] at hends
  exact hends

/-- What a specification says of a run that fails. -/
theorem of_error (h : Meets P x Q E) {s s' : S} {e : SelectorError} (hs : P s)
    (hrun : runFrom x s = (.error e, s')) : E e s' := by
  have hends := h s hs
  rw [hrun] at hends
  exact hends

/-- A specification from what holds of every run. -/
theorem of_runs (hok : ∀ s v s', P s → runFrom x s = (.ok v, s') → Q v s')
    (herror : ∀ s e s', P s → runFrom x s = (.error e, s') → E e s') : Meets P x Q E := by
  intro s hs
  rcases hrun : runFrom x s with ⟨e | v, s'⟩
  · exact herror s e s' hs hrun
  · exact hok s v s' hs hrun

/-- The rule of consequence. -/
theorem weaken (h : Meets P x Q E) (hP : ∀ s, P' s → P s) (hQ : ∀ v s, Q v s → Q' v s)
    (hE : ∀ e s, E e s → E' e s) : Meets P' x Q' E' :=
  of_runs (fun s v s' hs hrun => hQ v s' (h.of_ok (hP s hs) hrun))
    fun s e s' hs hrun => hE e s' (h.of_error (hP s hs) hrun)

/-- It is started in fewer states. -/
theorem starting (h : Meets P x Q E) (hP : ∀ s, P' s → P s) : Meets P' x Q E :=
  h.weaken hP (fun _ _ hs => hs) fun _ _ hs => hs

/-- Less is said of where it succeeds. -/
theorem ending (h : Meets P x Q E) (hQ : ∀ v s, Q v s → Q' v s) : Meets P x Q' E :=
  h.weaken (fun _ hs => hs) hQ fun _ _ hs => hs

/-- A specification may be given state by state. -/
theorem of_each (h : ∀ s, P s → Meets (· = s) x Q E) : Meets P x Q E :=
  fun s hs => h s hs s rfl

/-! ### Steps -/

theorem pure {v : α} (h : ∀ s, P s → Q v s) : Meets P (Pure.pure v) Q E :=
  h

theorem throw {e : SelectorError} (h : ∀ s, P s → E e s) :
    Meets P (MonadExcept.throw e : ExceptT SelectorError (StateM S) α) Q E :=
  h

/-- **Two steps**: the second starts where the first ends. -/
theorem bind (hx : Meets P x Q E) (hf : ∀ v, Meets (Q v) (f v) R E) : Meets P (x >>= f) R E := by
  intro s hs
  rw [runFrom_bind]
  rcases hrun : runFrom x s with ⟨e | v, s'⟩
  · exact hx.of_error hs hrun
  · exact hf v s' (hx.of_ok hs hrun)

/-- A failure is handled from where it leaves the state. -/
theorem tryCatch {y : SelectorError → ExceptT SelectorError (StateM S) α}
    {E₁ : SelectorError → S → Prop} (hx : Meets P x Q E₁) (hy : ∀ e, Meets (E₁ e) (y e) Q E) :
    Meets P (tryCatch x y) Q E := by
  intro s hs
  rw [runFrom_tryCatch]
  rcases hrun : runFrom x s with ⟨e | v, s'⟩
  · exact hy e s' (hx.of_error hs hrun)
  · exact hx.of_ok hs hrun

/-! ### Rows of steps -/

/-- A row of steps keeps an invariant about the results so far. -/
theorem mapM (I : List β → S → Prop) {f : α → ExceptT SelectorError (StateM S) β} {xs : List α}
    (hf : ∀ x ∈ xs, ∀ ys, Meets (I ys) (f x) (fun y => I (ys ++ [y])) E) :
    Meets (I []) (xs.mapM f) I E := by
  suffices hrow : ∀ ys, Meets (I ys) (xs.mapM f) (fun zs => I (ys ++ zs)) E from hrow []
  induction xs with
  | nil =>
      intro ys
      rw [List.mapM_nil]
      exact pure fun s hs => by rwa [List.append_nil]
  | cons x xs ih =>
      intro ys
      rw [List.mapM_cons]
      refine bind (hf x List.mem_cons_self ys) fun y => ?_
      have hmore := ih (fun x' hx' => hf x' (List.mem_cons_of_mem x hx')) (ys ++ [y])
      exact bind hmore fun zs => pure fun s hs => by rwa [List.append_cons]

/-- A row of steps of which some give nothing. -/
theorem filterMapM (I : List β → S → Prop) {f : α → ExceptT SelectorError (StateM S) (Option β)}
    {xs : List α} (hf : ∀ x ∈ xs, ∀ ys, Meets (I ys) (f x) (fun o => I (ys ++ o.toList)) E) :
    Meets (I []) (xs.filterMapM f) I E := by
  suffices hrow : ∀ ys, Meets (I ys) (xs.filterMapM f) (fun zs => I (ys ++ zs)) E from hrow []
  induction xs with
  | nil =>
      intro ys
      rw [List.filterMapM_nil]
      exact pure fun s hs => by rwa [List.append_nil]
  | cons x xs ih =>
      intro ys
      rw [List.filterMapM_cons]
      refine bind (hf x List.mem_cons_self ys) fun o => ?_
      have hmore := ih (fun x' hx' => hf x' (List.mem_cons_of_mem x hx'))
      cases o with
      | none =>
          refine (hmore (ys ++ [])).ending fun zs s hs => ?_
          rwa [List.append_nil] at hs
      | some y =>
          exact bind (hmore (ys ++ [y])) fun zs => pure fun s hs => by rwa [List.append_cons]

/-- A row of steps that each give a row. -/
theorem flatMapM (I : List β → S → Prop) {f : α → ExceptT SelectorError (StateM S) (List β)}
    {xs : List α} (hf : ∀ x ∈ xs, ∀ ys, Meets (I ys) (f x) (fun zs => I (ys ++ zs)) E) :
    Meets (I []) (xs.flatMapM f) I E := by
  suffices hrow : ∀ ys, Meets (I ys) (xs.flatMapM f) (fun zs => I (ys ++ zs)) E from hrow []
  induction xs with
  | nil =>
      intro ys
      rw [List.flatMapM_nil]
      exact pure fun s hs => by rwa [List.append_nil]
  | cons x xs ih =>
      intro ys
      rw [List.flatMapM_cons]
      refine bind (hf x List.mem_cons_self ys) fun zs => ?_
      have hmore := ih (fun x' hx' => hf x' (List.mem_cons_of_mem x hx')) (ys ++ zs)
      exact bind hmore fun ws => pure fun s hs => by rwa [← List.append_assoc]

/-- A fold keeps an invariant about what it has come to. -/
theorem foldlM (I : β → S → Prop) {f : β → α → ExceptT SelectorError (StateM S) β} {xs : List α}
    (hf : ∀ x ∈ xs, ∀ v, Meets (I v) (f v x) I E) (v : β) : Meets (I v) (xs.foldlM f v) I E := by
  induction xs generalizing v with
  | nil => exact pure fun s hs => hs
  | cons x xs ih =>
      rw [List.foldlM_cons]
      exact bind (hf x List.mem_cons_self v) (ih fun x' hx' => hf x' (List.mem_cons_of_mem x hx'))

end Meets

/-! ### What is returned -/

/-- Whatever the computation returns has the property. -/
def Returns (x : ExceptT SelectorError (StateM S) α) (R : α → Prop) : Prop :=
  Meets (fun _ => True) x (fun v _ => R v) fun _ _ => True

namespace Returns

variable {R : α → Prop} {R' : β → Prop}

/-- The property of a result. -/
theorem of_run (h : Returns x R) {s s' : S} {v : α} (hrun : runFrom x s = (.ok v, s')) : R v :=
  h.of_ok trivial hrun

/-- What is returned does not depend on where the computation starts. -/
theorem meets (h : Returns x R) {P : S → Prop} : Meets P x (fun v _ => R v) fun _ _ => True :=
  fun s _ => h s trivial

/-- Less is said of the result. -/
theorem weaken {R' : α → Prop} (h : Returns x R) (hR : ∀ v, R v → R' v) : Returns x R' :=
  Meets.ending h fun v _ => hR v

/-- Nothing has to be said of failures. -/
theorem of_runs (h : ∀ s v s', runFrom x s = (.ok v, s') → R v) : Returns x R :=
  Meets.of_runs (fun s v s' _ hrun => h s v s' hrun) fun _ _ _ _ _ => trivial

theorem pure {v : α} (hv : R v) : Returns (S := S) (Pure.pure v) R :=
  Meets.pure fun _ _ => hv

theorem throw (e : SelectorError) :
    Returns (MonadExcept.throw e : ExceptT SelectorError (StateM S) α) R :=
  Meets.throw fun _ _ => trivial

theorem any (x : ExceptT SelectorError (StateM S) α) : Returns x fun _ => True :=
  of_runs fun _ _ _ _ => trivial

/-- What the first step returns is known to the second. -/
theorem bind (hx : Returns x R) (hf : ∀ v, R v → Returns (f v) R') : Returns (x >>= f) R' :=
  Meets.bind hx fun v => Meets.of_each fun _ hv => (hf v hv).meets

/-- Filtering returns some of what it is given. -/
theorem filterM (p : α → ExceptT SelectorError (StateM S) Bool) (xs : List α) :
    Returns (xs.filterM p) fun ys => ys.Sublist xs := by
  induction xs with
  | nil => exact pure (List.Sublist.refl [])
  | cons x xs ih =>
      rw [filterM_cons]
      refine bind (any (p x)) fun b _ => bind ih fun ys hys => pure ?_
      cases b with
      | false => exact hys.cons x
      | true => exact hys.cons_cons x

/-- What each step of a row returns. -/
theorem flatMapM {f : α → ExceptT SelectorError (StateM S) (List β)} {xs : List α}
    (hf : ∀ x ∈ xs, Returns (f x) fun ys => ∀ y ∈ ys, R' y) :
    Returns (xs.flatMapM f) fun ys => ∀ y ∈ ys, R' y := by
  refine (Meets.flatMapM (fun ys _ => ∀ y ∈ ys, R' y) fun x hx ys => ?_).starting
    fun _ _ y hy => absurd hy List.not_mem_nil
  exact Meets.of_each fun _ hys => Meets.ending (hf x hx).meets fun zs _ hzs =>
    List.forall_mem_append.mpr ⟨hys, hzs⟩

end Returns

/-! ### Rows of results -/

section Rows

variable {ε : Type} {g : α → Except ε β} {xs : List α} {ys : List β} {e : ε}

/-- What is made of a result fails as the result does. -/
theorem map_eq_error_iff {r : Except ε α} {f : α → β} :
    (do return f (← r)) = .error e ↔ r = .error e := by
  cases r with
  | error e' => simp [bind, Except.bind]
  | ok v => simp [bind, Except.bind, pure, Except.pure]

/-- **All of a row succeed** exactly if each step does. -/
theorem mapM_eq_ok_iff : xs.mapM g = .ok ys ↔ List.Forall₂ (fun x y => g x = .ok y) xs ys := by
  constructor
  · intro h
    induction xs generalizing ys with
    | nil =>
        cases h
        exact .nil
    | cons x xs ih =>
        rw [List.mapM_cons] at h
        cases hx : g x with
        | error e =>
            rw [hx] at h
            cases h
        | ok y =>
            cases hmore : xs.mapM g with
            | error e =>
                rw [hx, hmore] at h
                cases h
            | ok more =>
                rw [hx, hmore] at h
                cases h
                exact .cons hx (ih hmore)
  · intro h
    induction h with
    | nil => rfl
    | cons hx _ ih =>
        rw [List.mapM_cons, hx, ih]
        rfl

/-- **The first failure of a row**: what stands before it succeeds. -/
theorem mapM_eq_error_iff : xs.mapM g = .error e ↔ ∃ before x after, xs = before ++ x :: after ∧
    (∀ y ∈ before, ∃ v, g y = .ok v) ∧ g x = .error e := by
  constructor
  · intro he
    induction xs with
    | nil => cases he
    | cons x xs ih =>
        rw [List.mapM_cons] at he
        cases hx : g x with
        | error e' =>
            rw [hx] at he
            cases he
            exact ⟨[], x, xs, rfl, fun y hy => absurd hy List.not_mem_nil, hx⟩
        | ok v =>
            rw [hx] at he
            obtain ⟨before, y, after, rfl, hbefore, hy⟩ := ih (map_eq_error_iff.mp he)
            exact ⟨x :: before, y, after, rfl, List.forall_mem_cons.mpr ⟨⟨v, hx⟩, hbefore⟩, hy⟩
  · rintro ⟨before, x, after, rfl, hbefore, hx⟩
    induction before with
    | nil =>
        rw [List.nil_append, List.mapM_cons, hx]
        rfl
    | cons y before ih =>
        obtain ⟨⟨v, hv⟩, hmore⟩ := List.forall_mem_cons.mp hbefore
        rw [List.cons_append, List.mapM_cons, hv]
        exact map_eq_error_iff.mpr (ih hmore)

/-- A row fails exactly if one of its steps fails. -/
theorem exists_mapM_eq_error_iff : (∃ e, xs.mapM g = .error e) ↔ ∃ x ∈ xs, ∃ e, g x = .error e := by
  constructor
  · rintro ⟨e, he⟩
    obtain ⟨before, x, after, rfl, -, hx⟩ := mapM_eq_error_iff.mp he
    exact ⟨x, List.mem_append_right before List.mem_cons_self, e, hx⟩
  · rintro ⟨x, hx, e, he⟩
    induction xs with
    | nil => cases hx
    | cons y xs ih =>
        rw [List.mapM_cons]
        cases hy : g y with
        | error e' => exact ⟨e', rfl⟩
        | ok v =>
            rcases List.mem_cons.mp hx with rfl | hx
            · rw [he] at hy
              cases hy
            · obtain ⟨e', he'⟩ := ih hx
              exact ⟨e', map_eq_error_iff.mpr he'⟩

end Rows

end Selectors

import Selectors.Compiled.Compile
import Selectors.Proofs.Running

/-!
# Compiling with a flag and a depth

Where a part stands may be kept in the state instead of handed down: a flag that is set while an
argument of `:has()` is compiled, and a depth that is one higher while any argument is.  Both have
to be put back whether the argument compiles or fails, because what comes next is compiled from the
same state.  This is a compiler of that kind.  It does what the other one does at the place that its
state tells, and leaves the flag and the depth as it found them.

* `Tracked` are its steps, and `Tracked.list` compiles lists.
* `Tracked.Follows` compares a step with one that is handed its place; `Tracked.Follows.depth` and
  `Tracked.Follows.flag` are the rules for arguments.
* `Tracked.follows_list` is the result, and `Tracked.Keeps` collects it for the steps inside.
-/

namespace Selectors

/-- The arena with the place of what is compiled. -/
structure Place where
  arena : Arena
  /-- Inside the argument of `:has()`. -/
  inHas : Bool := false
  /-- How many arguments are around. -/
  depth : Nat := 0

/-- What is handed down at a place. -/
def Place.context (source : List Char) (s : Place) : CompileContext :=
  { source, inHas := s.inHas, nested := 0 < s.depth }

/-- A step of compiling that keeps its place in the state. -/
abbrev Tracked := ExceptT SelectorError (StateM Place)

namespace Tracked

variable {α β : Type}

/-- A step that has to do with the arena alone. -/
def inArena (x : Compile α) : Tracked α := do
  let s ← get
  let (result, arena) := runFrom x s.arena
  set { s with arena }
  liftExcept result
where
  liftExcept : Except SelectorError α → Tracked α
    | .ok v => return v
    | .error e => throw e

/-- A step between two changes of the place.  The second is made also when the step fails. -/
def between (before after : Place → Place) (x : Tracked α) : Tracked α := do
  modify before
  let result ← tryCatch (Except.ok <$> x) fun e => return .error e
  modify after
  inArena.liftExcept result

/-- A step inside of an argument. -/
def deeper (x : Tracked α) : Tracked α :=
  between (fun s => { s with depth := s.depth + 1 }) (fun s => { s with depth := s.depth - 1 }) x

/-- A step inside of an argument of `:has()`. -/
def insideHas (x : Tracked α) : Tracked α :=
  between (fun s => { s with inHas := true }) (fun s => { s with inHas := false }) x

/-! ### The compiler -/

section

variable (source : List Char) (nested : ListMode → List Token → String → Tracked ListId)

def nth (kind : NthKind) (tokens : List Token) (text : String) : Tracked PseudoClass := do
  let cut := if kind.countsType then none else Compile.cutAtOf? tokens
  match cut with
  | none =>
    let formula ← inArena (Compile.need (.invalidConstruct text) (AnB.ofTokens? tokens))
    return .nth kind formula none
  | some (before, after) =>
    let formula ← inArena (Compile.need (.invalidConstruct text) (AnB.ofTokens? before))
    return .nth kind formula (some (← nested .strict after text))

/-- The pseudo-class with a known name.  The flag is down when `:has()` raises it. -/
def namedPseudoClass (kind : PseudoClassName) (name : String) (args : Option Arguments)
    (text : String) : Tracked PseudoClass := do
  let tokens := args.elim [] Arguments.tokens
  match kind with
  | .logical .is => return .logical .is (← nested .forgiving tokens text)
  | .logical .whereAny => return .logical .whereAny (← nested .forgiving tokens text)
  | .logical .not => return .logical .not (← nested .strict tokens text)
  | .logical .has =>
    if (← get).inHas then
      throw (.invalidConstruct text)
    return .logical .has (← insideHas (nested .relative tokens text))
  | .nth k => nth nested k tokens text
  | .edge k => return .nth k ⟨0, 1⟩ none
  | .host =>
    if args.isSome then
      return .host (some (← nested .compound tokens text))
    return .host none
  | .hostContext => return .hostContext (← nested .compound tokens text)
  | .dir =>
    return .dir (← inArena (Compile.need (.invalidConstruct text) (Compile.dirWord? tokens)))
  | .lang =>
    return .lang (← inArena (Compile.need (.invalidConstruct text)
      ((Token.splitList tokens).mapM Compile.langRange?)))
  | .state s => return .state s
  | .unevaluated _ => return .unsupported (Text.lower name)

def pseudoClass (name : String) (args : Option Arguments) (text : String) : Tracked PseudoClass :=
  match PseudoClassName.ofText? name with
  | none =>
    if (Text.lower name).startsWith "-webkit-" then return .unsupported (Text.lower name)
    else throw (.unknownPseudoClass name)
  | some kind =>
    if kind.allows args.isSome then namedPseudoClass nested kind name args text
    else throw (.invalidConstruct text)

/-- Adds a pseudo-element to what is read of a compound.  None may stand where the depth is not
zero. -/
def pseudoElement (d : Compile.Draft) (name : String) (args : Option Arguments) (text : String) :
    Tracked Compile.Draft := do
  if 0 < (← get).depth then
    throw (.invalidConstruct text)
  let kind ← inArena (Compile.need (.unknownPseudoElement name) (PseudoElementName.ofText? name))
  if !kind.allows args.isSome then
    throw (.invalidConstruct text)
  if kind = .slotted then
    let list ← nested .compound (args.elim [] Arguments.tokens) text
    return { d with slotted := some (Compile.firstCompound (← get).arena list) }
  return { d with pseudoElement := d.pseudoElement.or (some (Text.lower name)) }

def component (whole : String) (d : Compile.Draft) (c : Component) : Tracked Compile.Draft := do
  if d.slotted.isSome then
    throw (.invalidConstruct whole)
  match c with
  | .type space name => return d.add (.type space name)
  | .id name => return d.add (.id name)
  | .class name => return d.add (.class name)
  | .attribute t => return d.add (.attribute (Compile.attributeTest t))
  | .nesting => return d.add (.pseudo (.state .scope))
  | .pseudoClass name args text => return d.add (.pseudo (← pseudoClass nested name args text))
  | .pseudoElement name args _ text => pseudoElement nested d name args text

def compound (whole : String) (last : Bool) (components : List Component) :
    Tracked (CompoundId × List (Combinator × CompoundId)) := do
  let d ← components.foldlM (component nested whole) {}
  if (d.pseudoElement.isSome || d.slotted.isSome) && !last then
    throw (.invalidConstruct whole)
  let id ← inArena (Compile.pushCompound d)
  return (id, d.slotted.toList.map (.slot, ·))

def joined (whole : String) :
    List (Combinator × List Component) → Tracked (List (Combinator × CompoundId))
  | [] => return []
  | (mark, components) :: more => do
    let (id, slotted) ← compound nested whole more.isEmpty components
    let rest ← joined whole more
    return (mark, id) :: slotted ++ rest

def complex (relative : Bool) (node : ComplexNode) : Tracked ComplexId := do
  let leading ← inArena (node.leading.mapM Compile.combinator)
  let marks ← inArena (node.joined.mapM fun (mark, components) =>
    return (← Compile.combinator mark, components))
  let (first, slotted) ← compound nested node.text marks.isEmpty node.first
  let rest ← joined nested node.text marks
  let joined := slotted ++ rest
  let direction := Compile.direction (← get).arena relative first joined
  inArena (Compile.pushComplex
    { leading := if relative then some (leading.getD .descendant) else none
      first, joined, text := node.text, direction })

/-- A member of a forgiving list.  The place is as before also where the member fails. -/
def forgivenMember (member : List Token) : Tracked (Option ComplexId) :=
  if (Token.trim member).isEmpty then
    return none
  else
    tryCatch
      (do
        let node ← inArena.liftExcept (ComplexNode.ofTokens source false member)
        some <$> complex nested false node)
      fun _ => return none

def listInner (mode : ListMode) (tokens : List Token) (text : String) : Tracked ListId := do
  if mode = .forgiving then
    let members ← (Token.splitList tokens).filterMapM (forgivenMember source nested)
    inArena (Compile.pushList members)
  else
    match ComplexNode.listOfTokens source (mode = .relative) tokens with
    | .error _ => throw (.invalidSelector text)
    | .ok nodes =>
      if mode = .compound && !Compile.listWith.isCompound nodes then
        throw (.invalidConstruct text)
      inArena (Compile.pushList (← nodes.mapM (complex nested (mode = .relative))))

end

/-- The list in an argument, with at most `level` levels of lists from there on. -/
def list (source : List Char) : Nat → ListMode → List Token → String → Tracked ListId
  | 0, _, _, text => throw (.invalidSelector text)
  | level + 1, mode, tokens, text => deeper (listInner source (list source level) mode tokens text)

/-- Compiles a selector text from the flag that is down and the depth zero. -/
def compile (text : String) : Except SelectorError CompiledSelector := do
  let stream ← TokenStream.ofText text
  match ComplexNode.listOfTokens stream.source false stream.tokens with
  | .error _ => throw (.invalidSelector text)
  | .ok nodes =>
    let nested := list stream.source stream.tokens.length
    let step : Tracked ListId := do
      inArena (Compile.pushList (← nodes.mapM (complex nested false)))
    match runFrom step { arena := {} } with
    | (.ok root, s) => return { source := text, arena := s.arena, root }
    | (.error e, _) => throw e

/-! ### Following -/

/-- From this place the step does what `f` does there, and leaves the flag and the depth as they
were. -/
def FollowsAt (source : List Char) (x : Tracked α) (f : CompileContext → Compile α) (s : Place) :
    Prop :=
  runFrom x s = ((runFrom (f (s.context source)) s.arena).1,
    { s with arena := (runFrom (f (s.context source)) s.arena).2 })

/-- **From every place** the step does what `f` does there, and leaves the flag and the depth as
they were. -/
def Follows (source : List Char) (x : Tracked α) (f : CompileContext → Compile α) : Prop :=
  ∀ s, FollowsAt source x f s

/-- A result that needs no state leaves the state alone. -/
theorem runFrom_liftExcept (r : Except SelectorError α) (s : Place) :
    runFrom (inArena.liftExcept r) s = (r, s) := by
  cases r <;> rfl

/-- What is done before and after a step is done whether it succeeds or fails. -/
theorem runFrom_between (before after : Place → Place) (x : Tracked α) (s : Place) :
    runFrom (between before after x) s =
      ((runFrom x (before s)).1, after (runFrom x (before s)).2) := by
  have hattempt : ∀ s, runFrom
      (tryCatch (Except.ok <$> x) fun e => return .error e : Tracked (Except SelectorError α)) s =
        (.ok (runFrom x s).1, (runFrom x s).2) := by
    intro s
    rw [runFrom_tryCatch, map_eq_pure_bind, runFrom_bind]
    rcases runFrom x s with ⟨_ | v, s'⟩ <;> rfl
  unfold between
  rw [runFrom_bind_ok (runFrom_modify before s), runFrom_bind_ok (hattempt (before s)),
    runFrom_bind_ok (runFrom_modify after _), runFrom_liftExcept]

namespace Follows

variable {source : List Char} {x : Tracked α} {f : CompileContext → Compile α} {s : Place}

theorem pure (v : α) : Follows source (Pure.pure v) fun _ => Pure.pure v :=
  fun _ => rfl

theorem throw (e : SelectorError) :
    Follows source (MonadExcept.throw e : Tracked α) fun _ => MonadExcept.throw e :=
  fun _ => rfl

theorem arena (x : Compile α) : Follows source (Tracked.inArena x) fun _ => x := by
  intro s
  exact runFrom_liftExcept (runFrom x s.arena).1 { s with arena := (runFrom x s.arena).2 }

/-- Two steps, where the second goes on from a place with the same flag and depth. -/
theorem bindAt {g : α → Tracked β} {h : α → CompileContext → Compile β}
    (hx : FollowsAt source x f s) (hg : ∀ v, Follows source (g v) (h v)) :
    FollowsAt source (x >>= g) (fun ctx => f ctx >>= (h · ctx)) s := by
  unfold FollowsAt at hx ⊢
  rw [runFrom_bind, runFrom_bind, hx]
  rcases runFrom (f (s.context source)) s.arena with ⟨_ | v, b⟩
  · rfl
  · exact hg v { s with arena := b }

/-- **Two steps** keep the place if each does. -/
theorem bind {g : α → Tracked β} {h : α → CompileContext → Compile β} (hx : Follows source x f)
    (hg : ∀ v, Follows source (g v) (h v)) :
    Follows source (x >>= g) fun ctx => f ctx >>= (h · ctx) :=
  fun s => bindAt (hx s) hg

theorem throw_bind (e : SelectorError) (g : α → Tracked β) (h : α → CompileContext → Compile β) :
    Follows source (MonadExcept.throw e >>= g) fun ctx => MonadExcept.throw e >>= (h · ctx) :=
  throw e

theorem map (hx : Follows source x f) (g : α → β) :
    Follows source (g <$> x) fun ctx => g <$> f ctx := by
  simp only [map_eq_pure_bind]
  exact bind hx fun v => pure (g v)

/-- The arena of the place may be asked for. -/
theorem get {g : Place → Tracked α} {h : Arena → CompileContext → Compile α}
    (hgh : ∀ s, FollowsAt source (g s) (h s.arena) s) :
    Follows source (MonadState.get >>= g) fun ctx => MonadState.get >>= (h · ctx) :=
  hgh

/-- The place may be asked for what forbids the step. -/
theorem guard {p : Place → Prop} {q : CompileContext → Prop} [DecidablePred p] [DecidablePred q]
    (hpq : ∀ s, p s ↔ q (s.context source)) (e : SelectorError)
    (hx : ∀ s, ¬ p s → FollowsAt source x f s) :
    Follows source
      (do
        if p (← MonadState.get) then
          MonadExcept.throw e
        x)
      (fun ctx => do
        if q ctx then
          MonadExcept.throw e
        f ctx) := by
  intro s
  unfold FollowsAt
  rw [runFrom_bind_ok (runFrom_get s)]
  by_cases hp : p s
  · simp only [if_pos hp, if_pos ((hpq s).mp hp)]
    rfl
  · simp only [if_neg hp, if_neg fun hq => hp ((hpq s).mpr hq)]
    exact hx s hp

/-- A failure that is forgiven leaves the place as it was. -/
theorem forgive (hx : Follows source x f) {y : Tracked α} {g : CompileContext → Compile α}
    (hy : Follows source y g) :
    Follows source (tryCatch x fun _ => y) fun ctx => tryCatch (f ctx) fun _ => g ctx := by
  intro s
  unfold FollowsAt
  rw [runFrom_tryCatch, runFrom_tryCatch, hx s]
  rcases runFrom (f (s.context source)) s.arena with ⟨_ | v, b⟩
  · exact hy { s with arena := b }
  · rfl

/-- **The depth** is one higher inside of an argument, and as before behind it. -/
theorem depth (hx : Follows source x f) :
    Follows source (Tracked.deeper x) fun ctx => f { ctx with nested := true } := by
  intro s
  have hcontext : Place.context source { s with depth := s.depth + 1 } =
      { s.context source with nested := true } := by
    simp [Place.context]
  unfold FollowsAt Tracked.deeper
  rw [runFrom_between, hx, hcontext]
  rfl

/-- **The flag** is set inside of an argument of `:has()`, and not behind it.  So it has to be down
before. -/
theorem flag (hx : Follows source x f) (hdown : s.inHas = false) :
    FollowsAt source (Tracked.insideHas x) (fun ctx => f { ctx with inHas := true }) s := by
  unfold FollowsAt Tracked.insideHas
  rw [runFrom_between, hx]
  obtain ⟨a, inHas, depth⟩ := s
  obtain rfl : inHas = false := hdown
  rfl

/-! ### Rows of steps -/

/-- A row of steps keeps the place. -/
theorem mapM {ι : Type} {g : ι → Tracked α} {h : ι → CompileContext → Compile α}
    (hgh : ∀ i, Follows source (g i) (h i)) (is : List ι) :
    Follows source (is.mapM g) fun ctx => is.mapM (h · ctx) := by
  induction is with
  | nil => exact pure []
  | cons i is ih =>
      simp only [List.mapM_cons]
      exact bind (hgh i) fun v => bind ih fun vs => pure (v :: vs)

/-- A row of steps of which some give nothing keeps the place. -/
theorem filterMapM {ι : Type} {g : ι → Tracked (Option α)}
    {h : ι → CompileContext → Compile (Option α)} (hgh : ∀ i, Follows source (g i) (h i))
    (is : List ι) : Follows source (is.filterMapM g) fun ctx => is.filterMapM (h · ctx) := by
  induction is with
  | nil => exact pure []
  | cons i is ih =>
      simp only [List.filterMapM_cons]
      refine bind (hgh i) fun o => ?_
      cases o with
      | none => exact ih
      | some v => exact bind ih fun vs => pure (v :: vs)

/-- A fold keeps the place. -/
theorem foldlM {ι : Type} {g : α → ι → Tracked α} {h : α → ι → CompileContext → Compile α}
    (hgh : ∀ v i, Follows source (g v i) (h v i)) (is : List ι) (v : α) :
    Follows source (is.foldlM g v) fun ctx => is.foldlM (h · · ctx) v := by
  induction is generalizing v with
  | nil => exact pure v
  | cons i is ih =>
      simp only [List.foldlM_cons]
      exact bind (hgh v i) ih

end Follows

/-! ### The steps of the compiler -/

open Follows

/-- The lists inside are compiled one deeper. -/
def FollowsInside (source : List Char) (nested : ListMode → List Token → String → Tracked ListId)
    (nested' : ListCompiler) : Prop :=
  ∀ mode tokens text, Follows source (nested mode tokens text) fun ctx =>
    nested' { ctx with nested := true } mode tokens text

variable {source : List Char} {nested : ListMode → List Token → String → Tracked ListId}
  {nested' : ListCompiler}

/-- A counting pseudo-class compiles its list one deeper. -/
theorem follows_nth (hnested : FollowsInside source nested nested') (kind : NthKind)
    (tokens : List Token) (text : String) :
    Follows source (nth nested kind tokens text) (Compile.nth nested' · kind tokens text) := by
  unfold nth Compile.nth
  dsimp only
  generalize (if kind.countsType then none else Compile.cutAtOf? tokens) = cut
  rcases cut with _ | ⟨before, after⟩
  · exact bind (arena _) fun formula => pure _
  · exact bind (arena _) fun formula => bind (hnested _ _ _) fun l => pure _

/-- **The pseudo-classes that are known**: each compiles its list one deeper, and `:has()` sets the
flag. -/
theorem follows_namedPseudoClass (hnested : FollowsInside source nested nested')
    (kind : PseudoClassName) (name : String) (args : Option Arguments) (text : String) :
    Follows source (namedPseudoClass nested kind name args text)
      (Compile.namedPseudoClass nested' · kind name args text) := by
  cases kind with
  | logical op =>
      cases op with
      | is => exact bind (hnested _ _ _) fun l => pure _
      | whereAny => exact bind (hnested _ _ _) fun l => pure _
      | not => exact bind (hnested _ _ _) fun l => pure _
      | has =>
          refine guard (p := fun s => s.inHas = true) (q := fun ctx => ctx.inHas = true)
            (fun _ => Iff.rfl) _ fun s hs => ?_
          exact bindAt (flag (hnested _ _ _) (eq_false_of_ne_true hs)) fun l => pure _
  | nth kind => exact follows_nth hnested kind _ text
  | edge kind => exact pure _
  | host =>
      unfold namedPseudoClass Compile.namedPseudoClass
      dsimp only
      split
      · exact bind (hnested _ _ _) fun l => pure _
      · exact pure _
  | hostContext => exact bind (hnested _ _ _) fun l => pure _
  | dir => exact bind (arena _) fun word => pure _
  | lang => exact bind (arena _) fun ranges => pure _
  | state s => exact pure _
  | unevaluated s => exact pure _

/-- A pseudo-class is known, or it fails in both. -/
theorem follows_pseudoClass (hnested : FollowsInside source nested nested') (name : String)
    (args : Option Arguments) (text : String) :
    Follows source (pseudoClass nested name args text)
      (Compile.pseudoClass nested' · name args text) := by
  unfold pseudoClass Compile.pseudoClass
  cases PseudoClassName.ofText? name with
  | none =>
      dsimp only
      split
      · exact pure _
      · exact throw _
  | some kind =>
      dsimp only
      split
      · exact follows_namedPseudoClass hnested kind name args text
      · exact throw _

/-- A pseudo-element compiles its list one deeper. -/
theorem follows_pseudoElement (hnested : FollowsInside source nested nested') (d : Compile.Draft)
    (name : String) (args : Option Arguments) (text : String) :
    Follows source (pseudoElement nested d name args text)
      (Compile.pseudoElement nested' · d name args text) := by
  have hdeep : ∀ s : Place, 0 < s.depth ↔ (s.context source).nested = true :=
    fun s => decide_eq_true_iff.symm
  refine guard hdeep _ fun s _ => bind (arena _) (fun kind => ?_) s
  dsimp only
  split
  · exact throw_bind _ _ _
  split
  · exact bind (hnested _ _ _) fun l => get fun s => pure _ s
  · exact pure _

/-- A component compiles as the one that is handed its place. -/
theorem follows_component (hnested : FollowsInside source nested nested') (whole : String)
    (d : Compile.Draft) (c : Component) :
    Follows source (component nested whole d c) (Compile.component nested' · whole d c) := by
  unfold component Compile.component
  dsimp only
  split
  · exact throw_bind _ _ _
  · cases c with
    | pseudoClass name args text =>
        exact bind (follows_pseudoClass hnested name args text) fun p => pure _
    | pseudoElement name args oneColon text => exact follows_pseudoElement hnested d name args text
    | _ => exact pure _

/-- A compound compiles as the one that is handed its place. -/
theorem follows_compound (hnested : FollowsInside source nested nested') (whole : String)
    (last : Bool) (components : List Component) :
    Follows source (compound nested whole last components)
      (Compile.compound nested' · whole last components) := by
  refine bind (Follows.foldlM (follows_component hnested whole) components {}) fun d => ?_
  dsimp only
  split
  · exact throw_bind _ _ _
  · exact bind (arena _) fun id => pure _

/-- The compounds behind the first compile as those that are handed their place. -/
theorem follows_joined (hnested : FollowsInside source nested nested') (whole : String)
    (marks : List (Combinator × List Component)) :
    Follows source (joined nested whole marks) (Compile.joined nested' · whole marks) := by
  induction marks with
  | nil => exact pure []
  | cons mark more ih =>
      obtain ⟨mark, components⟩ := mark
      exact bind (follows_compound hnested whole more.isEmpty components) fun v =>
        bind ih fun rest => pure _

/-- A complex selector compiles as the one that is handed its place. -/
theorem follows_complex (hnested : FollowsInside source nested nested') (relative : Bool)
    (node : ComplexNode) :
    Follows source (complex nested relative node) (Compile.complex nested' · relative node) := by
  refine bind (arena _) fun leading => bind (arena _) fun marks => ?_
  refine bind (follows_compound hnested node.text marks.isEmpty node.first) fun v => ?_
  refine bind (follows_joined hnested node.text marks) fun rest => ?_
  exact get fun s => arena _ s

/-- A forgiven member leaves flag and depth as they were, whether it compiles or not. -/
theorem follows_forgivenMember (hnested : FollowsInside source nested nested')
    (member : List Token) :
    Follows source (forgivenMember source nested member)
      (Compile.forgivenMember nested' · member) := by
  have hread : Follows source
      (inArena.liftExcept (ComplexNode.ofTokens source false member)) fun ctx =>
        Compile.forgivenMember.liftExcept (ComplexNode.ofTokens ctx.source false member) := by
    intro s
    change FollowsAt source _ (fun _ => Compile.forgivenMember.liftExcept
      (ComplexNode.ofTokens source false member)) s
    cases ComplexNode.ofTokens source false member with
    | error e => exact throw e s
    | ok node => exact pure node s
  unfold forgivenMember Compile.forgivenMember
  split
  · exact pure none
  · exact forgive (bind hread fun node => map (follows_complex hnested false node) some) (pure none)

/-- A list compiles as the one that is handed its place. -/
theorem follows_listInner (hnested : FollowsInside source nested nested') (mode : ListMode)
    (tokens : List Token) (text : String) :
    Follows source (listInner source nested mode tokens text)
      (Compile.listWith nested' · mode tokens text) := by
  have hread : ∀ {relative : Bool} (s : Place),
      ComplexNode.listOfTokens (s.context source).source relative tokens =
        ComplexNode.listOfTokens source relative tokens := fun _ => rfl
  intro s
  unfold listInner Compile.listWith
  split
  · exact bind (Follows.filterMapM (follows_forgivenMember hnested) _) (fun ids => arena _) s
  · unfold FollowsAt
    dsimp only
    rw [hread s]
    cases ComplexNode.listOfTokens source (mode = .relative) tokens with
    | error e => rfl
    | ok nodes =>
        dsimp only
        split
        · rfl
        · exact bind (Follows.mapM (follows_complex hnested _) nodes) (fun ids => arena _) s

/-- **Lists leave the flag and the depth as they were**, by induction on the levels: the lists
inside do. -/
theorem follows_list (source : List Char) (level : Nat) :
    FollowsInside source (list source level) (Compile.list level) := by
  induction level with
  | zero => exact fun mode tokens text => throw _
  | succ level ih => exact fun mode tokens text => depth (follows_listInner ih mode tokens text)

/-- Each step of the compiler does what the other one does at its place, and leaves the flag and
the depth as they were. -/
structure Keeps (source : List Char) (level : Nat) : Prop where
  nth : ∀ kind tokens text, Follows source (Tracked.nth (list source level) kind tokens text)
    (Compile.nth (Compile.list level) · kind tokens text)
  namedPseudoClass : ∀ kind name args text, Follows source
    (Tracked.namedPseudoClass (list source level) kind name args text)
    (Compile.namedPseudoClass (Compile.list level) · kind name args text)
  pseudoClass : ∀ name args text, Follows source
    (Tracked.pseudoClass (list source level) name args text)
    (Compile.pseudoClass (Compile.list level) · name args text)
  pseudoElement : ∀ d name args text, Follows source
    (Tracked.pseudoElement (list source level) d name args text)
    (Compile.pseudoElement (Compile.list level) · d name args text)
  component : ∀ whole d c, Follows source (Tracked.component (list source level) whole d c)
    (Compile.component (Compile.list level) · whole d c)
  compound : ∀ whole last components, Follows source
    (Tracked.compound (list source level) whole last components)
    (Compile.compound (Compile.list level) · whole last components)
  joined : ∀ whole marks, Follows source (Tracked.joined (list source level) whole marks)
    (Compile.joined (Compile.list level) · whole marks)
  complex : ∀ relative node, Follows source (Tracked.complex (list source level) relative node)
    (Compile.complex (Compile.list level) · relative node)
  forgivenMember : ∀ member, Follows source
    (Tracked.forgivenMember source (list source level) member)
    (Compile.forgivenMember (Compile.list level) · member)
  list : FollowsInside source (list source level) (Compile.list level)

/-- **Every step keeps** the flag and the depth. -/
theorem keeps (source : List Char) (level : Nat) : Keeps source level :=
  have hlist := follows_list source level
  { nth := follows_nth hlist
    namedPseudoClass := follows_namedPseudoClass hlist
    pseudoClass := follows_pseudoClass hlist
    pseudoElement := follows_pseudoElement hlist
    component := follows_component hlist
    compound := follows_compound hlist
    joined := follows_joined hlist
    complex := follows_complex hlist
    forgivenMember := follows_forgivenMember hlist
    list := hlist }

/-- **A text compiles to the same** selector, or fails in the same way. -/
theorem compile_eq (text : String) : compile text = Selectors.compile text := by
  unfold compile Selectors.compile
  cases TokenStream.ofText text with
  | error e => rfl
  | ok stream =>
      have hread : ∀ f : TokenStream → Except SelectorError CompiledSelector,
          (Except.ok stream >>= f) = f stream := fun _ => rfl
      rw [hread, hread]
      cases ComplexNode.listOfTokens stream.source false stream.tokens with
      | error e => rfl
      | ok nodes =>
          have hcomplex := follows_complex (follows_list stream.source stream.tokens.length) false
          let step : Compile ListId :=
            nodes.mapM (Compile.complex (Compile.list stream.tokens.length)
              { source := stream.source } false) >>= Compile.pushList
          have hstep : runFrom (nodes.mapM (complex (list stream.source stream.tokens.length) false)
              >>= fun ids => inArena (Compile.pushList ids)) { arena := {} } =
                ((runFrom step {}).1, { arena := (runFrom step {}).2 }) :=
            bind (Follows.mapM hcomplex nodes) (fun ids => arena (Compile.pushList ids))
              { arena := {} }
          dsimp only
          rw [hstep]
          change _ = match runFrom step {} with
            | (.ok root, arena) => Except.ok (⟨text, arena, root⟩ : CompiledSelector)
            | (.error e, _) => Except.error e
          rcases runFrom step {} with ⟨_ | root, b⟩ <;> rfl

end Tracked

end Selectors

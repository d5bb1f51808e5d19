import Selectors.Proofs.Matching.Parallel
import Selectors.Proofs.Query.Order

/-!
# Queries in parallel

A query asks of its matcher whether members match nodes, and whether the compounds of members that
are followed do.  Between two matchers over one tree everything else is the same: which members are
followed, which nodes are candidates, and where the search is given up.  So a relation that every
step keeps holds of the two queries as soon as it holds of what they ask.

* `Matcher.MembersAlike` collects what is asked.
* `Matcher.Parallel.find` carries the relation to the answers for all targets.
-/

namespace Selectors

namespace Matcher

/-- What a query asks of its members is related: whether they match a node, and where one is
followed, whether its compounds do. -/
structure MembersAlike (m : Matcher) (scope : Option NodeId) (strict remembers : Bool)
    (R : ∀ α : Type, Matching α → Matching α → Prop) : Prop where
  complex : ∀ id ∈ (m.arena.list m.root).complexes, ∀ n,
    R Bool (m.matchesComplex id n) ((m.tuned scope strict remembers).matchesComplex id n)
  compound : ∀ id ∈ (m.arena.list m.root).complexes, m.isFollowed id = true →
    ∀ d ∈ (m.arena.complex id).compounds, ∀ n,
      R Bool (m.matchesCompound d n) ((m.tuned scope strict remembers).matchesCompound d n)

variable {m : Matcher} {scope : Option NodeId} {strict remembers : Bool}
  {R : ∀ α : Type, Matching α → Matching α → Prop}

/-- What lies below the reference is a matter of the tree alone. -/
theorem keepBelow_tuned (m : Matcher) (scope : Option NodeId) (strict remembers : Bool)
    (c : Cursor) (ns : List NodeId) :
    (m.tuned scope strict remembers).keepBelow c ns = m.keepBelow c ns := by
  induction ns generalizing c with
  | nil => rfl
  | cons n ns ih => simp only [keepBelow, ih]

namespace Parallel

/-- Rows put together from parallel parts are parallel. -/
theorem flatMapM (P : m.Parallel scope strict remembers R) {α β : Type}
    {f g : α → Matching (List β)} {xs : List α} (h : ∀ x ∈ xs, R (List β) (f x) (g x)) :
    R (List β) (xs.flatMapM f) (xs.flatMapM g) := by
  induction xs with
  | nil => exact P.pure []
  | cons x xs ih =>
      rw [List.flatMapM_cons, List.flatMapM_cons]
      refine P.bind (h x List.mem_cons_self) fun ys => ?_
      exact P.bind (ih fun y hy => h y (List.mem_cons_of_mem x hy)) fun zs => P.pure _

/-! ### Tested members -/

/-- Whether some member matches is parallel. -/
theorem matchesSome (P : m.Parallel scope strict remembers R)
    (hmembers : m.MembersAlike scope strict remembers R) {members : List ComplexId}
    (hsub : members ⊆ (m.arena.list m.root).complexes) (n : NodeId) :
    R Bool (m.matchesSome members n) ((m.tuned scope strict remembers).matchesSome members n) :=
  P.anyM fun id hid => hmembers.complex id (hsub hid) n

/-- What is collected from a row of nodes is parallel. -/
theorem collect (P : m.Parallel scope strict remembers R)
    (hmembers : m.MembersAlike scope strict remembers R) {members : List ComplexId}
    (hsub : members ⊆ (m.arena.list m.root).complexes) (firstOnly : Bool) (ns : List NodeId) :
    R (List NodeId) (m.collect members firstOnly ns)
      ((m.tuned scope strict remembers).collect members firstOnly ns) := by
  induction ns with
  | nil => exact P.pure []
  | cons n ns ih =>
      refine P.bind (P.matchesSome hmembers hsub n) fun b => ?_
      cases b with
      | false => exact ih
      | true =>
          cases firstOnly with
          | true => exact P.pure [n]
          | false => exact P.bind ih fun found => P.pure _

/-- What is found among the candidates is parallel. -/
theorem candidateMatches (P : m.Parallel scope strict remembers R)
    (hmembers : m.MembersAlike scope strict remembers R) {members : List ComplexId}
    (hsub : members ⊆ (m.arena.list m.root).complexes) (reference : NodeId) (firstOnly : Bool) :
    R (List NodeId) (m.candidateMatches reference members firstOnly)
      ((m.tuned scope strict remembers).candidateMatches reference members firstOnly) := by
  unfold Matcher.candidateMatches
  split
  · exact P.pure []
  · exact P.collect hmembers hsub firstOnly _

/-! ### Followed members -/

/-- A step along a combinator is parallel. -/
theorem step (P : m.Parallel scope strict remembers R) {d : CompoundId}
    (hd : ∀ n, R Bool (m.matchesCompound d n)
      ((m.tuned scope strict remembers).matchesCompound d n)) (q : Combinator)
    (ns : List NodeId) :
    R (List NodeId) (m.step q d ns) ((m.tuned scope strict remembers).step q d ns) :=
  P.flatMapM fun _ _ => P.filterM fun n _ => hd n

/-- Steps one after the other are parallel. -/
theorem followFrom (P : m.Parallel scope strict remembers R)
    {steps : List (Combinator × CompoundId)}
    (hsteps : ∀ d ∈ steps.map Prod.snd, ∀ n, R Bool (m.matchesCompound d n)
      ((m.tuned scope strict remembers).matchesCompound d n)) (ns : List NodeId) :
    R (List NodeId) (m.followFrom steps ns)
      ((m.tuned scope strict remembers).followFrom steps ns) := by
  induction steps generalizing ns with
  | nil => exact P.pure ns
  | cons step more ih =>
      obtain ⟨q, d⟩ := step
      refine P.bind (P.step (hsteps d List.mem_cons_self) q ns) fun found => ?_
      dsimp only
      split
      · exact P.pure []
      · exact ih (fun e he => hsteps e (List.mem_cons_of_mem d he)) _

/-- Following a member is parallel. -/
theorem followMember (P : m.Parallel scope strict remembers R)
    (hmembers : m.MembersAlike scope strict remembers R) {id : ComplexId}
    (hid : id ∈ (m.arena.list m.root).complexes) (hfollowed : m.isFollowed id = true)
    (reference : NodeId) :
    R (List NodeId) (m.followMember reference id)
      ((m.tuned scope strict remembers).followMember reference id) := by
  have hcompound := hmembers.compound id hid hfollowed
  refine P.bind (P.filterM fun n _ => hcompound _ List.mem_cons_self n) fun start => ?_
  exact P.followFrom (fun d hd => hcompound d (List.mem_cons_of_mem _ hd)) start

/-- Following all members that are followed is parallel. -/
theorem followedMatches (P : m.Parallel scope strict remembers R)
    (hmembers : m.MembersAlike scope strict remembers R) {members : List ComplexId}
    (hsub : members ⊆ (m.arena.list m.root).complexes)
    (hfollowed : ∀ id ∈ members, m.isFollowed id = true) (reference : NodeId) :
    R (List NodeId) (m.followedMatches reference members)
      ((m.tuned scope strict remembers).followedMatches reference members) := by
  refine P.flatMapM fun id hid => ?_
  refine P.bind (P.followMember hmembers (hsub hid) (hfollowed id hid) reference) fun found => ?_
  rw [m.keepBelow_tuned scope strict remembers]
  exact P.pure _

/-! ### The four targets -/

/-- **All matches below the reference** are parallel, the first one too. -/
theorem matchesBelow (P : m.Parallel scope strict remembers R)
    (hmembers : m.MembersAlike scope strict remembers R) (reference : NodeId)
    (firstOnly : Bool) :
    R (List NodeId) (m.matchesBelow reference firstOnly)
      ((m.tuned scope strict remembers).matchesBelow reference firstOnly) := by
  have htested : m.testedMembers ⊆ (m.arena.list m.root).complexes :=
    fun id hid => (List.mem_filter.mp hid).1
  have hsub : m.followedMembers ⊆ (m.arena.list m.root).complexes :=
    fun id hid => (List.mem_filter.mp hid).1
  have hfollowed : ∀ id ∈ m.followedMembers, m.isFollowed id = true :=
    fun id hid => (List.mem_filter.mp hid).2
  cases href : m.isReference reference with
  | false =>
      rw [matchesBelow_of_not_reference href,
        matchesBelow_of_not_reference (m := m.tuned scope strict remembers) href]
      exact P.pure []
  | true =>
      by_cases hnone : m.followedMembers = []
      · rw [matchesBelow_of_tested href hnone,
          matchesBelow_of_tested (m := m.tuned scope strict remembers) href hnone,
          map_eq_pure_bind, map_eq_pure_bind]
        refine P.bind ?_ fun found => P.pure _
        exact P.candidateMatches hmembers htested reference firstOnly
      · rw [matchesBelow_of_followed href hnone,
          matchesBelow_of_followed (m := m.tuned scope strict remembers) href hnone]
        refine P.bind (P.candidateMatches hmembers htested reference false) fun found => ?_
        refine P.bind (P.followedMatches hmembers hsub hfollowed reference) fun more => ?_
        exact P.pure _

/-- Whether a node matches is parallel. -/
theorem matchesNode (P : m.Parallel scope strict remembers R)
    (hmembers : m.MembersAlike scope strict remembers R) (n : NodeId) :
    R Bool (m.matchesNode n) ((m.tuned scope strict remembers).matchesNode n) :=
  P.anyM fun id hid => hmembers.complex id hid n

/-- Whether a node itself is found is parallel. -/
theorem matchesItself (P : m.Parallel scope strict remembers R)
    (hmembers : m.MembersAlike scope strict remembers R) (n : NodeId) :
    R Bool (m.matchesItself n) ((m.tuned scope strict remembers).matchesItself n) := by
  unfold Matcher.matchesItself
  dsimp only
  split
  · exact P.matchesNode hmembers n
  · exact P.matchesNode hmembers n
  · exact P.pure false

/-- The first match of a row is parallel. -/
theorem firstMatch (P : m.Parallel scope strict remembers R)
    (hmembers : m.MembersAlike scope strict remembers R) (ns : List NodeId) :
    R (Option NodeId) (m.firstMatch ns) ((m.tuned scope strict remembers).firstMatch ns) := by
  induction ns with
  | nil => exact P.pure none
  | cons n ns ih =>
      unfold Matcher.firstMatch
      split
      · refine P.bind (P.matchesNode hmembers n) fun b => ?_
        cases b with
        | true => exact P.pure (some n)
        | false => exact ih
      · exact ih

/-- The nearest match is parallel. -/
theorem nearestMatch (P : m.Parallel scope strict remembers R)
    (hmembers : m.MembersAlike scope strict remembers R) (n : NodeId) :
    R (Option NodeId) (m.nearestMatch n) ((m.tuned scope strict remembers).nearestMatch n) := by
  unfold Matcher.nearestMatch
  split
  · exact P.firstMatch hmembers _
  · exact P.pure none

/-- **A query** runs in parallel if what it asks of its members does. -/
theorem find {q : Query} (P : q.matcher.Parallel scope strict remembers R)
    (hmembers : q.matcher.MembersAlike scope strict remembers R) (target : Target) :
    R (List NodeId) (q.find target)
      ({ q with matcher := q.matcher.tuned scope strict remembers }.find target) := by
  cases target with
  | all => exact P.matchesBelow hmembers q.reference false
  | first => exact P.matchesBelow hmembers q.reference true
  | itself => exact P.bind (P.matchesItself hmembers q.reference) fun b => P.pure _
  | nearest => exact P.bind (P.nearestMatch hmembers q.reference) fun n => P.pure _

end Parallel

end Matcher

end Selectors

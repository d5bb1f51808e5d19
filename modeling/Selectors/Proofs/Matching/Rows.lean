import Selectors.Proofs.Compiled.Compiling
import Selectors.Proofs.Matching.Answers
import Selectors.Proofs.Tree.Change

/-!
# What a complex selector means

A complex selector asks for a row of nodes, one for each compound, in which neighbours are related
as the combinators say and each node passes its compound.  Left of a slot combinator compounds are
asked in the shadow tree of the slot.  Matching reads such a row from right to left, one node after
another, and tries all nodes that a combinator leads to.

* `Matcher.Row` says what a row is, with `Tree.scopeAlong` for the scopes.
* `Matcher.ReadsLeft` is the way of the matcher along a row, and `Matcher.readsLeft_leftward` finds
  the same rows in it.
* `Matcher.matchesComplex_iff_row` is the meaning of a complex selector.
-/

namespace Selectors

/-- The shadow scope of the first node of a row, where the last one has the scope `σ`. Left of a
slot it is the shadow root of the slot's tree, if it has one. -/
def Tree.scopeAlong (t : Tree) (σ : ShadowScope) : List Combinator → (Nat → NodeId) → ShadowScope
  | [], _ => σ
  | .slot :: _, e => t.view.shadowScope (e 0)
  | _ :: qs, e => t.scopeAlong σ qs fun i => e (i + 1)

namespace Matcher

/-- **A row of nodes** `e 0, e 1, …` for the compounds of a complex selector. -/
structure Row (t : Tree) (m : Matcher) (σ : ShadowScope) (c : ComplexSelector)
    (e : Nat → NodeId) : Prop where
  joins : ∀ i q, c.combinators[i]? = some q → t.Joins q (e i) (e (i + 1))
  passes : ∀ i d, c.compounds[i]? = some d →
    m.Passes (t.scopeAlong σ (c.combinators.drop i) fun j => e (i + j)) d (e i)

variable {t : Tree} {m : Matcher} {σ : ShadowScope} {c : ComplexSelector} {e : Nat → NodeId}

/-! ### Rows from the left -/

/-- A row of one node. -/
theorem row_of_joined_nil (hjoined : c.joined = []) :
    Row t m σ c e ↔ m.Passes σ c.first (e 0) := by
  have hcombinators : c.combinators = [] := by
    rw [ComplexSelector.combinators, hjoined]
    rfl
  have hcompounds : c.compounds = [c.first] := by
    rw [ComplexSelector.compounds, hjoined]
    rfl
  constructor
  · intro hrow
    have hfirst := hrow.passes 0 c.first (by rw [hcompounds]; rfl)
    rw [hcombinators] at hfirst
    exact hfirst
  · intro hfirst
    constructor
    · intro i q hq
      rw [hcombinators] at hq
      cases hq
    · intro i d hd
      rw [hcompounds] at hd
      cases i with
      | zero =>
          cases hd
          rw [hcombinators]
          exact hfirst
      | succ i => cases hd

/-- A longer row is one node, joined to a row for the rest of the selector. -/
theorem row_of_joined_cons {q : Combinator} {d : CompoundId}
    {more : List (Combinator × CompoundId)} (hjoined : c.joined = (q, d) :: more) :
    Row t m σ c e ↔ m.Passes (t.scopeAlong σ c.combinators e) c.first (e 0) ∧
      t.Joins q (e 0) (e 1) ∧ Row t m σ (c.rest d more) fun i => e (i + 1) := by
  have hcombinators := ComplexSelector.combinators_of_joined hjoined
  have hcompounds := ComplexSelector.compounds_of_joined hjoined
  have hshift : ∀ i, (fun j => e (i + 1 + j)) = fun j => e (i + j + 1) := by
    intro i
    funext j
    rw [Nat.add_right_comm]
  constructor
  · intro hrow
    refine ⟨?_, ?_, ?_, ?_⟩
    · have hfirst := hrow.passes 0 c.first (by rw [hcompounds]; rfl)
      simpa only [List.drop_zero, Nat.zero_add] using hfirst
    · exact hrow.joins 0 q (by rw [hcombinators]; rfl)
    · intro i p hp
      exact hrow.joins (i + 1) p (by rw [hcombinators]; exact hp)
    · intro i b hb
      have hpasses := hrow.passes (i + 1) b (by rw [hcompounds]; exact hb)
      rw [hcombinators, List.drop_succ_cons, hshift] at hpasses
      exact hpasses
  · intro hparts
    obtain ⟨hfirst, hjoins, hrest⟩ := hparts
    constructor
    · intro i p hp
      rw [hcombinators] at hp
      cases i with
      | zero =>
          cases hp
          exact hjoins
      | succ i => exact hrest.joins i p hp
    · intro i b hb
      rw [hcompounds] at hb
      cases i with
      | zero =>
          cases hb
          simpa only [List.drop_zero, Nat.zero_add] using hfirst
      | succ i =>
          rw [hcombinators, List.drop_succ_cons, hshift]
          exact hrest.passes i b hb

/-- What each combinator of a row hands on from left to right holds of its last node. -/
theorem Row.last (hrow : Row t m σ c e) {P : NodeId → Prop} (hfirst : P (e 0))
    (hstep : ∀ q ∈ c.combinators, ∀ x y, t.Joins q x y → P x → P y) :
    P (e c.combinators.length) := by
  have hall : ∀ i, i ≤ c.combinators.length → P (e i) := by
    intro i hi
    induction i with
    | zero => exact hfirst
    | succ i ih =>
        have hq : c.combinators[i]? = some c.combinators[i] := List.getElem?_eq_getElem hi
        have hjoins := hrow.joins i _ hq
        exact hstep _ (List.getElem_mem hi) _ _ hjoins (ih (Nat.le_of_lt hi))
  exact hall _ (Nat.le_refl _)

/-! ### Rows from the right -/

/-- The way of the matcher to the left: from the node `n` in the scope `σ` it gets to the node `a`
in the scope `ρ`. -/
def ReadsLeft (t : Tree) (m : Matcher) : List (Combinator × CompoundId) → ShadowScope →
    CompoundId → NodeId → ShadowScope → NodeId → Prop
  | [], σ, c, n, ρ, a => m.Passes σ c n ∧ ρ = σ ∧ a = n
  | (q, d) :: more, σ, c, n, ρ, a => m.Passes σ c n ∧
    ∃ left, t.Joins q left n ∧ ReadsLeft t m more (m.scopeAcross σ left q) d left ρ a

/-- One more step at the far end. -/
theorem readsLeft_concat {steps : List (Combinator × CompoundId)} {q : Combinator}
    {d c : CompoundId} {n : NodeId} {ρ : ShadowScope} {a : NodeId} :
    ReadsLeft t m (steps ++ [(q, d)]) σ c n ρ a ↔
      ∃ ρ' b, ReadsLeft t m steps σ c n ρ' b ∧ t.Joins q a b ∧
        ρ = m.scopeAcross ρ' a q ∧ m.Passes ρ d a := by
  induction steps generalizing σ c n with
  | nil =>
      constructor
      · intro hreads
        obtain ⟨hpasses, left, hjoins, hleft, rfl, rfl⟩ := hreads
        exact ⟨σ, n, ⟨hpasses, rfl, rfl⟩, hjoins, rfl, hleft⟩
      · intro hreads
        obtain ⟨ρ', b, ⟨hpasses, rfl, rfl⟩, hjoins, rfl, hleft⟩ := hreads
        exact ⟨hpasses, a, hjoins, hleft, rfl, rfl⟩
  | cons step more ih =>
      obtain ⟨p, d'⟩ := step
      constructor
      · intro hreads
        obtain ⟨hpasses, left, hjoins, hmore⟩ := hreads
        obtain ⟨ρ', b, hb, hrest⟩ := ih.mp hmore
        exact ⟨ρ', b, ⟨hpasses, left, hjoins, hb⟩, hrest⟩
      · intro hreads
        obtain ⟨ρ', b, ⟨hpasses, left, hjoins, hb⟩, hrest⟩ := hreads
        exact ⟨hpasses, left, hjoins, ih.mpr ⟨ρ', b, hb, hrest⟩⟩

/-- The scope along a row begins with the scope along its end. -/
theorem scopeAlong_cons (hm : m.tree = t.view) (q : Combinator) (qs : List Combinator) :
    t.scopeAlong σ (q :: qs) e =
      m.scopeAcross (t.scopeAlong σ qs fun i => e (i + 1)) (e 0) q := by
  unfold scopeAcross
  rw [hm]
  cases q with
  | _ => rfl

/-- **Both readings find the same rows**: from the right along the chain, or all nodes at once.  The
new node comes first in the row, and last in the chain. -/
theorem readsLeft_leftward (hm : m.tree = t.view) {n : NodeId} {ρ : ShadowScope} {a : NodeId} :
    ReadsLeft t m c.leftward σ c.subject n ρ a ↔
      ∃ e, Row t m σ c e ∧ e 0 = a ∧ e c.combinators.length = n ∧
        t.scopeAlong σ c.combinators e = ρ := by
  induction hjoined : c.joined generalizing c ρ a with
  | nil =>
      have hcombinators : c.combinators = [] := by
        rw [ComplexSelector.combinators, hjoined]
        rfl
      have hleftward : c.leftward = [] := by
        rw [ComplexSelector.leftward, hcombinators]
        rfl
      have hsubject : c.subject = c.first := by
        rw [ComplexSelector.subject, hjoined]
        rfl
      rw [hleftward, hsubject, hcombinators]
      constructor
      · intro hreads
        obtain ⟨hpasses, rfl, rfl⟩ := hreads
        exact ⟨fun _ => a, (row_of_joined_nil hjoined).mpr hpasses, rfl, rfl, rfl⟩
      · intro hrow
        obtain ⟨e, hrow, rfl, rfl, rfl⟩ := hrow
        exact ⟨(row_of_joined_nil hjoined).mp hrow, rfl, rfl⟩
  | cons step more ih =>
      obtain ⟨q, d⟩ := step
      have hcombinators := ComplexSelector.combinators_of_joined hjoined
      rw [ComplexSelector.leftward_of_joined hjoined, ComplexSelector.subject_of_joined hjoined,
        readsLeft_concat]
      constructor
      · intro hreads
        obtain ⟨ρ', b, hb, hjoins, rfl, hpasses⟩ := hreads
        obtain ⟨e, hrow, rfl, rfl, rfl⟩ := (ih rfl).mp hb
        let e' : Nat → NodeId := fun i => Nat.casesOn i a e
        have hscope : t.scopeAlong σ c.combinators e' =
            m.scopeAcross (t.scopeAlong σ (c.rest d more).combinators e) a q := by
          rw [hcombinators, scopeAlong_cons hm]
          rfl
        refine ⟨e', (row_of_joined_cons hjoined).mpr ⟨?_, hjoins, hrow⟩, rfl, ?_, hscope⟩
        · rw [hscope]
          exact hpasses
        · rw [hcombinators]
          rfl
      · intro hrow
        obtain ⟨e, hrow, rfl, rfl, rfl⟩ := hrow
        obtain ⟨hpasses, hjoins, hrest⟩ := (row_of_joined_cons hjoined).mp hrow
        refine ⟨_, e 1, (ih rfl).mpr ⟨_, hrest, rfl, ?_, rfl⟩, hjoins, ?_, hpasses⟩
        · rw [hcombinators]
          rfl
        · rw [hcombinators, scopeAlong_cons hm]

/-! ### Matching -/

variable {f : Frame} {k : Nat} {l : ListId} {id : ComplexId} {n : NodeId}

/-- **A chain tests whether it leads anywhere**, and to a node that is related to the anchor. -/
theorem Infallible.tests_chain (H : Infallible t m f.routes) (hl : l.index < m.arena.listCount)
    (hk : l.index ≤ k) (hid : id ∈ (m.arena.list l).complexes)
    (anchor : Option (Combinator × NodeId)) {steps : List (Combinator × CompoundId)}
    {d : CompoundId} {r : Route} (hcovers : CoversLeft f.routes r d steps)
    (hsteps : ∀ b ∈ d :: steps.map Prod.snd, b ∈ (m.arena.complex id).compounds)
    (hσ : f.Fits t r σ n) :
    Tests t m f k (m.matchChain m.inside anchor steps σ d n)
      (∃ ρ a, ReadsLeft t m steps σ d n ρ a ∧
        (anchor.all fun (q, x) => m.tree.related x a q) = true) := by
  induction steps generalizing σ d n r with
  | nil =>
      have hd : f.routes.compound d = r := hcovers
      have hcompound := H.tests_compound hl hk hid (hsteps d List.mem_cons_self) (hd ▸ hσ)
      refine (hcompound.and (Tests.pure _)).congr ?_
      constructor
      · intro hboth
        exact ⟨σ, n, ⟨hboth.1, rfl, rfl⟩, hboth.2⟩
      · intro hreads
        obtain ⟨ρ, a, ⟨hpasses, rfl, rfl⟩, hanchor⟩ := hreads
        exact ⟨hpasses, hanchor⟩
  | cons step more ih =>
      obtain ⟨q, b⟩ := step
      obtain ⟨hd, hmore⟩ := hcovers
      have hcompound := H.tests_compound hl hk hid (hsteps d List.mem_cons_self) (hd ▸ hσ)
      have hleft : ∀ left ∈ m.tree.leftOf n q, t.Joins q left n := by
        intro left hleft
        rw [H.view, H.tree.mem_leftOf] at hleft
        exact hleft
      have hrest := Tests.anyM fun left hmem =>
        ih hmore (fun x hx => hsteps x (List.mem_cons_of_mem d hx))
          (hσ.across H.tree H.view (hleft left hmem))
      refine (hcompound.and hrest).congr ?_
      constructor
      · intro hboth
        obtain ⟨hpasses, left, hmem, ρ, a, hreads, hanchor⟩ := hboth
        exact ⟨ρ, a, ⟨hpasses, left, hleft left hmem, hreads⟩, hanchor⟩
      · intro hreads
        obtain ⟨ρ, a, ⟨hpasses, left, hjoins, hreads⟩, hanchor⟩ := hreads
        refine ⟨hpasses, left, ?_, ρ, a, hreads, hanchor⟩
        rw [H.view, H.tree.mem_leftOf]
        exact hjoins

/-- A complex selector tests whether there is a row that ends in the node, and whose first node is
related to the anchor. -/
theorem Infallible.tests_complex (H : Infallible t m f.routes) (hl : l.index < m.arena.listCount)
    (hk : l.index ≤ k) (hid : id ∈ (m.arena.list l).complexes)
    (anchor : Option (Combinator × NodeId)) (hσ : f.Fits t (f.routes.list l) σ n) :
    Tests t m f k (m.matchComplex m.inside anchor σ id n)
      (∃ e, Row t m σ (m.arena.complex id) e ∧
        e (m.arena.complex id).combinators.length = n ∧
          (anchor.all fun (q, x) => m.tree.related x (e 0) q) = true) := by
  have hcovers := H.described.complex (H.described.lists hl id hid)
  rw [H.described.list hl id hid] at hcovers
  have hchain := H.tests_chain hl hk hid anchor (coversLeft_of_covers hcovers)
    (fun _ hd => ComplexSelector.mem_of_mem_chain hd) hσ
  refine hchain.congr ?_
  constructor
  · intro hreads
    obtain ⟨ρ, a, hreads, hanchor⟩ := hreads
    obtain ⟨e, hrow, rfl, hn, -⟩ := (readsLeft_leftward H.view).mp hreads
    exact ⟨e, hrow, hn, hanchor⟩
  · intro hrow
    obtain ⟨e, hrow, hn, hanchor⟩ := hrow
    exact ⟨_, e 0, (readsLeft_leftward H.view).mpr ⟨e, hrow, rfl, hn, rfl⟩, hanchor⟩

/-- **A complex selector matches a node if there is a row that ends in it**, and so it says from
every memory that calls for its list have left: no nearer candidate that fails hides another one. -/
theorem matchesComplex_iff_row (ht : t.Proper) {text : String} {s : CompiledSelector}
    (hs : compile text = .ok s) (htree : m.tree = t.view) (harena : m.arena = s.arena)
    (hlenient : m.strict = false) (hplain : ¬m.arena.NamesPrefix)
    (hid : id ∈ (m.arena.list l).complexes) {memory : MatchMemory} (hused : m.Used l memory)
    (n : NodeId) :
    ∃ b, (runFrom (m.matchesComplex id n) memory).1 = .ok b ∧
      (b = true ↔ ∃ e, Row t m m.shadow (m.arena.complex id) e ∧
        e (m.arena.complex id).combinators.length = n) := by
  obtain ⟨F, hF, -⟩ := compile_describes hs
  rw [← harena] at hF
  have hl := Arena.lt_of_mem_list hid
  have H : Infallible t m (m.callFrame F l).routes :=
    { tree := ht.wellFormed, view := htree, described := hF, lenient := hlenient, plain := hplain }
  obtain ⟨b, hb, hrow⟩ := H.tests_complex hl (Nat.le_of_lt hl) hid none
    (fits_callFrame t m F l n)
  obtain ⟨s', hrun, -⟩ := hb memory (hused.recalls H hl)
  refine ⟨b, congrArg Prod.fst hrun, hrow.trans ?_⟩
  refine exists_congr fun e => and_congr_right fun _ => ?_
  exact and_iff_left rfl

/-- In the attached box a paragraph matches `div > p` with the row of its parent and itself. -/
theorem matchesComplex_iff_row_attachedBox :
    ∃ s, compile "div > p" = .ok s ∧
      let m : Matcher := { tree := Tree.attachedBox.view, arena := s.arena, root := s.root }
      (runFrom (m.matchesComplex ⟨0⟩ 3) {}).1 = .ok true ∧
        ∃ e, Row Tree.attachedBox m none (m.arena.complex ⟨0⟩) e ∧ e 1 = 3 := by
  let s := (compile "div > p").toOption.get (by decide +kernel)
  have hs : compile "div > p" = .ok s := by
    decide +kernel
  let m : Matcher := { tree := Tree.attachedBox.view, arena := s.arena, root := s.root }
  have hrun : (runFrom (m.matchesComplex ⟨0⟩ 3) {}).1 = .ok true := by
    decide +kernel
  have hplain : ¬m.arena.NamesPrefix := by
    decide +kernel
  have hid : ⟨0⟩ ∈ (m.arena.list ⟨0⟩).complexes := by
    decide +kernel
  have hlength : (m.arena.complex ⟨0⟩).combinators.length = 1 := by
    decide +kernel
  obtain ⟨b, hb, hrow⟩ :=
    matchesComplex_iff_row (m := m) Tree.attachedBox_proper hs rfl rfl rfl hplain hid Used.new 3
  rw [hrun] at hb
  cases hb
  rw [hlength] at hrow
  exact ⟨s, hs, hrun, hrow.mp rfl⟩

end Matcher

end Selectors

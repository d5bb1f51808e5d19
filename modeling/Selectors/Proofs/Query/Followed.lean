import Selectors.Proofs.Matching.Scopes
import Selectors.Proofs.Query.Order

/-!
# Following a member from its first compound

A member that begins with an id is not tested on candidates: the elements with the id are looked up
and the rest is followed to the right.  Where nothing asks for `:scope`, what is followed are the
rows of the member, read from left to right, with one exception.  The look-up passes over the root
of the tree, so that rows that begin there are not found.

* `Matcher.LeadsRight` is the way to the right.  `Matcher.elementRow_iff_leadsRight` finds rows of
  elements in it, and `Matcher.row_iff_leadsRight` rows of any nodes.
* `Matcher.Infallible.yields_followMember` is what following a member finds.
-/

namespace Selectors

namespace Matcher

variable {t : Tree} {m : Matcher} {F : Routes} {f : Frame} {k : Nat} {c : ComplexSelector}
  {l : ListId} {id : ComplexId} {d : CompoundId} {a n reference : NodeId}

/-- What a row of combinators leads to from a node, through nodes that pass. -/
def LeadsRight (m : Matcher) : List (Combinator × CompoundId) → NodeId → NodeId → Prop
  | [], a, n => n = a
  | (q, d) :: more, a, n =>
    ∃ b ∈ m.tree.rightOf a q, m.Passes m.shadow d b ∧ LeadsRight m more b n

/-! ### What is found -/

/-- One step finds what passes among what the combinator leads to. -/
theorem yields_step {q : Combinator}
    (hd : ∀ n, Tests t m f k (m.matchesCompound d n) (m.Passes m.shadow d n)) (ns : List NodeId) :
    ∃ found, Yields t m f k (m.step q d ns) found ∧
      ∀ n, n ∈ found ↔ ∃ a ∈ ns, n ∈ m.tree.rightOf a q ∧ m.Passes m.shadow d n := by
  have hfilter : ∀ a, ∃ found, Yields t m f k
      ((m.tree.rightOf a q).filterM (m.matchesCompound d)) found ∧
        ∀ n, n ∈ found ↔ n ∈ m.tree.rightOf a q ∧ m.Passes m.shadow d n :=
    fun a => Tests.filterM fun n _ => hd n
  choose found hyields hmem using hfilter
  refine ⟨ns.flatMap found, Yields.flatMapM fun a _ => hyields a, fun n => ?_⟩
  rw [List.mem_flatMap]
  exact exists_congr fun a => and_congr_right fun _ => hmem a n

/-- **Following finds what the row leads to** from one of the nodes. -/
theorem yields_followFrom {steps : List (Combinator × CompoundId)}
    (hsteps : ∀ d ∈ steps.map Prod.snd, ∀ n,
      Tests t m f k (m.matchesCompound d n) (m.Passes m.shadow d n)) (ns : List NodeId) :
    ∃ found, Yields t m f k (m.followFrom steps ns) found ∧
      ∀ n, n ∈ found ↔ ∃ a ∈ ns, LeadsRight m steps a n := by
  induction steps generalizing ns with
  | nil =>
      refine ⟨ns, Yields.pure ns, fun n => ?_⟩
      constructor
      · intro hn
        exact ⟨n, hn, rfl⟩
      · intro hn
        obtain ⟨a, ha, rfl⟩ := hn
        exact ha
  | cons step more ih =>
      obtain ⟨q, d⟩ := step
      obtain ⟨next, hnext, hmem⟩ := yields_step (q := q) (hsteps d List.mem_cons_self) ns
      have hmore := fun b hb => hsteps b (List.mem_cons_of_mem d hb)
      obtain ⟨found, hfound, hlast⟩ := ih hmore (m.tree.sortNodes next)
      have hthrough : ∀ n, (∃ b ∈ m.tree.sortNodes next, LeadsRight m more b n) ↔
          ∃ a ∈ ns, LeadsRight m ((q, d) :: more) a n := by
        intro n
        constructor
        · intro hn
          obtain ⟨b, hb, hn⟩ := hn
          obtain ⟨a, ha, hab, hpasses⟩ := (hmem b).mp ((TreeView.mem_sortNodes m.tree).mp hb)
          exact ⟨a, ha, b, hab, hpasses, hn⟩
        · intro hn
          obtain ⟨a, ha, b, hab, hpasses, hn⟩ := hn
          have hb := (hmem b).mpr ⟨a, ha, hab, hpasses⟩
          exact ⟨b, (TreeView.mem_sortNodes m.tree).mpr hb, hn⟩
      cases hempty : (m.tree.sortNodes next).isEmpty with
      | true =>
          refine ⟨[], hnext.bind ?_, fun n => ?_⟩
          · dsimp only
            rw [hempty]
            exact Yields.pure []
          · rw [← hthrough n, List.isEmpty_iff.mp hempty]
            simp
      | false =>
          refine ⟨found, hnext.bind ?_, fun n => (hlast n).trans (hthrough n)⟩
          dsimp only
          rw [hempty]
          exact hfound

/-- A compound of a member without slots is tested in the scope of the matcher. -/
theorem Infallible.tests_matchesCompound (H : Infallible t m F)
    (hid : id ∈ (m.arena.list l).complexes)
    (hslot : Combinator.slot ∉ (m.arena.complex id).combinators)
    (hd : d ∈ (m.arena.complex id).compounds) (n : NodeId) :
    Tests t m (m.callFrame F l) m.arena.listCount (m.matchesCompound d n)
      (m.Passes m.shadow d n) := by
  have hl := Arena.lt_of_mem_list hid
  exact tests_compound (f := m.callFrame F l) H hl (Nat.le_of_lt hl) hid hd
    (fits_callFrame_of_slotFree H.described hid hslot hd n)

/-- **Following a member** finds what its row leads to from what passes the first compound and lies
below the root. -/
theorem Infallible.yields_followMember (H : Infallible t m F)
    (hid : id ∈ (m.arena.list l).complexes)
    (hslot : Combinator.slot ∉ (m.arena.complex id).combinators) (reference : NodeId) :
    ∃ found, Yields t m (m.callFrame F l) m.arena.listCount (m.followMember reference id) found ∧
      ∀ n, n ∈ found ↔ ∃ a ∈ m.tree.elementsBelow (m.tree.rootOf reference),
        m.Passes m.shadow (m.arena.complex id).first a ∧
          LeadsRight m (m.arena.complex id).joined a n := by
  have htests := fun d hd => H.tests_matchesCompound hid hslot (d := d) hd
  have hfirst : ∀ n ∈ m.tree.elementsBelow (m.tree.rootOf reference),
      Tests t m (m.callFrame F l) m.arena.listCount
        (m.matchesCompound (m.arena.complex id).first n)
        (m.Passes m.shadow (m.arena.complex id).first n) :=
    fun n _ => htests (m.arena.complex id).first List.mem_cons_self n
  obtain ⟨start, hstart, hmem⟩ := Tests.filterM hfirst
  obtain ⟨found, hfound, hlast⟩ := yields_followFrom
    (fun d hd => htests d (List.mem_cons_of_mem _ hd)) start
  refine ⟨found, hstart.bind hfound, fun n => (hlast n).trans ?_⟩
  constructor
  · intro hn
    obtain ⟨a, ha, hn⟩ := hn
    obtain ⟨hbelow, hpasses⟩ := (hmem a).mp ha
    exact ⟨a, hbelow, hpasses, hn⟩
  · intro hn
    obtain ⟨a, hbelow, hpasses, hn⟩ := hn
    exact ⟨a, (hmem a).mpr ⟨hbelow, hpasses⟩, hn⟩

/-! ### Rows to the right -/

/-- Without slots the scope is the same all along. -/
theorem scopeAlong_of_slotFree {qs : List Combinator} (hslot : Combinator.slot ∉ qs)
    (σ : ShadowScope) (e : Nat → NodeId) : t.scopeAlong σ qs e = σ := by
  induction qs generalizing e with
  | nil => rfl
  | cons q qs ih =>
      rw [List.mem_cons, not_or] at hslot
      cases q with
      | slot => exact absurd rfl hslot.1
      | _ => exact ih hslot.2 _

/-- A row of elements. -/
structure ElementRow (t : Tree) (m : Matcher) (σ : ShadowScope) (c : ComplexSelector)
    (e : Nat → NodeId) : Prop extends Row t m σ c e where
  elements : ∀ i ≤ c.combinators.length, t.view.isElement (e i) = true

/-- **From an element, rows of elements are what leads to the right.** -/
theorem elementRow_iff_leadsRight (h : t.WellFormed) (hm : m.tree = t.view)
    (hslot : Combinator.slot ∉ c.combinators) (ha : t.view.isElement a = true) :
    (∃ e, ElementRow t m m.shadow c e ∧ e 0 = a ∧ e c.combinators.length = n) ↔
      m.Passes m.shadow c.first a ∧ LeadsRight m c.joined a n := by
  induction hjoined : c.joined generalizing c a with
  | nil =>
      have hlength : c.combinators.length = 0 := by
        rw [ComplexSelector.combinators, hjoined]
        rfl
      constructor
      · intro hrow
        obtain ⟨e, hrow, rfl, rfl⟩ := hrow
        rw [hlength]
        exact ⟨(row_of_joined_nil hjoined).mp hrow.toRow, rfl⟩
      · intro hleads
        obtain ⟨hfirst, rfl⟩ := hleads
        have hrow : Row t m m.shadow c fun _ => n := (row_of_joined_nil hjoined).mpr hfirst
        exact ⟨fun _ => n, { hrow with elements := fun _ _ => ha }, rfl, rfl⟩
  | cons step more ih =>
      obtain ⟨q, d⟩ := step
      have hcombinators := ComplexSelector.combinators_of_joined hjoined
      have hsplit := hslot
      rw [hcombinators, List.mem_cons, not_or] at hsplit
      obtain ⟨hq, hrestSlot⟩ := hsplit
      have hlength : c.combinators.length = (c.rest d more).combinators.length + 1 := by
        rw [hcombinators]
        rfl
      constructor
      · intro hrow
        obtain ⟨e, hrow, rfl, rfl⟩ := hrow
        obtain ⟨hfirst, hjoins, htail⟩ := (row_of_joined_cons hjoined).mp hrow.toRow
        rw [scopeAlong_of_slotFree hslot] at hfirst
        have helements : ∀ i ≤ (c.rest d more).combinators.length,
            t.view.isElement (e (i + 1)) = true :=
          fun i hi => hrow.elements (i + 1) (by omega)
        have helement := helements 0 (Nat.zero_le _)
        refine ⟨hfirst, e 1, ?_, (ih hrestSlot helement rfl).mp
          ⟨_, { htail with elements := helements }, rfl, congrArg e hlength.symm⟩⟩
        rw [hm, h.mem_rightOf (Ne.symm hq) ha]
        exact ⟨helement, hjoins⟩
      · intro hleads
        obtain ⟨hfirst, b, hb, hleads⟩ := hleads
        rw [hm, h.mem_rightOf (Ne.symm hq) ha] at hb
        obtain ⟨helement, hjoins⟩ := hb
        obtain ⟨e, htail, rfl, rfl⟩ := (ih hrestSlot helement rfl).mpr hleads
        let e' : Nat → NodeId := fun i => Nat.casesOn i a e
        have hrow : Row t m m.shadow c e' := by
          rw [row_of_joined_cons hjoined, scopeAlong_of_slotFree hslot]
          exact ⟨hfirst, hjoins, htail.toRow⟩
        have helements : ∀ i ≤ c.combinators.length, t.view.isElement (e' i) = true := by
          intro i hi
          cases i with
          | zero => exact ha
          | succ i => exact htail.elements i (by omega)
        exact ⟨e', { hrow with elements := helements }, rfl, congrArg e' hlength⟩

/-- A row that starts with an element has no other nodes, if only elements and shadow roots pass:
after the first node there are no shadow roots.  A node that something leads to has a parent, and a
shadow root has none. -/
theorem Row.elements (h : t.WellFormed) (hslot : Combinator.slot ∉ c.combinators)
    (hpasses : ∀ d ∈ c.compounds, ∀ x, m.Passes m.shadow d x →
      t.view.isElement x = true ∨ t.kind x = .shadowRoot)
    {e : Nat → NodeId} (hrow : Row t m m.shadow c e) (hfirst : t.view.isElement (e 0) = true) :
    ∀ i ≤ c.combinators.length, t.view.isElement (e i) = true := by
  intro i hi
  cases i with
  | zero => exact hfirst
  | succ i =>
      have hq : c.combinators[i]? = some c.combinators[i] := List.getElem?_eq_getElem hi
      have hd : i + 1 < c.compounds.length := by
        rw [ComplexSelector.length_compounds]
        omega
      have hpass := hrow.passes (i + 1) _ (List.getElem?_eq_getElem hd)
      rw [scopeAlong_of_slotFree fun hmem => hslot (List.mem_of_mem_drop hmem)] at hpass
      rcases hpasses _ (List.getElem_mem hd) _ hpass with helement | hroot
      · exact helement
      · have hne : c.combinators[i] ≠ .slot := fun heq => hslot (heq ▸ List.getElem_mem hi)
        obtain ⟨p, hp⟩ := h.exists_parent_of_joins hne (hrow.joins i _ hq)
        have htop := h.parent_rootOf (e (i + 1))
        rw [h.rootOf_of_shadowRoot hroot, hp] at htop
        cases htop

/-- **From an element, rows are what leads to the right**, if only elements and shadow roots
pass. -/
theorem row_iff_leadsRight (h : t.WellFormed) (hm : m.tree = t.view)
    (hslot : Combinator.slot ∉ c.combinators)
    (hpasses : ∀ d ∈ c.compounds, ∀ x, m.Passes m.shadow d x →
      t.view.isElement x = true ∨ t.kind x = .shadowRoot) (ha : t.view.isElement a = true) :
    (∃ e, Row t m m.shadow c e ∧ e 0 = a ∧ e c.combinators.length = n) ↔
      m.Passes m.shadow c.first a ∧ LeadsRight m c.joined a n := by
  rw [← elementRow_iff_leadsRight h hm hslot ha]
  constructor
  · intro hrow
    obtain ⟨e, hrow, rfl, rfl⟩ := hrow
    exact ⟨e, { hrow with elements := hrow.elements h hslot hpasses ha }, rfl, rfl⟩
  · intro hrow
    obtain ⟨e, hrow, hfirst, hlast⟩ := hrow
    exact ⟨e, hrow.toRow, hfirst, hlast⟩

/-- A row without slots stays in one tree. -/
theorem Row.rootOf_last {σ : ShadowScope} {e : Nat → NodeId} (hrow : Row t m σ c e)
    (h : t.WellFormed) (hslot : Combinator.slot ∉ c.combinators) :
    t.rootOf (e c.combinators.length) = t.rootOf (e 0) := by
  refine hrow.last (P := fun x => t.rootOf x = t.rootOf (e 0)) rfl ?_
  intro q hq x y hjoins hx
  rw [← h.rootOf_of_joins (fun heq => hslot (heq ▸ hq)) hjoins]
  exact hx

end Matcher

end Selectors

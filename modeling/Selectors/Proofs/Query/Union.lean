import Selectors.Proofs.Matching.Growth
import Selectors.Proofs.Query.Members

/-!
# Selector lists are unions

A member of a selector finds the same nodes whatever other members stand beside it.  To say so, a
selector is given other members: one more list is stored, which holds them, and the selector begins
there.  Everything that was stored before stays in its place, and no list stored before asks for the
new one, so that members and all that is nested in them are matched as they were.

* `CompiledSelector.withMembers` gives a selector other members.
* `Matcher.Infallible.passes_withMembers` says that compounds stored before are passed as they were,
  and `Matcher.Infallible.finds_withMembers` that members find what they found.
* `Engine.queryAll_isUnion`: the result is the union of what each member finds alone.
-/

namespace Selectors

namespace Arena

/-- The arena with one more list. -/
def addList (a : Arena) (members : List ComplexId) : Arena :=
  { a with
    lists := a.lists.push { complexes := members, containsHas := members.any a.complexBearsHas } }

/-- The new list comes last. -/
theorem list_addList_last (a : Arena) (members : List ComplexId) :
    ((a.addList members).list ⟨a.listCount⟩).complexes = members := by
  simp [addList, list, listCount]

/-- An arena grows by a list of its members. -/
theorem grows_addList (a : Arena) (members : List ComplexId) : a.Grows (a.addList members) :=
  a.grows_pushList _

end Arena

namespace CompiledSelector

/-- The selector with other members out of its store. -/
def withMembers (s : CompiledSelector) (members : List ComplexId) : CompiledSelector :=
  { s with arena := s.arena.addList members, root := ⟨s.arena.listCount⟩ }

/-- The members are stored just as compiling stores a list. -/
theorem withMembers_eq_pushList (s : CompiledSelector) (members : List ComplexId) :
    runFrom (Compile.pushList members) s.arena =
      (.ok (s.withMembers members).root, (s.withMembers members).arena) :=
  rfl

end CompiledSelector

namespace Matcher

/-- The matcher of the selector with other members. -/
abbrev withMembers (m : Matcher) (members : List ComplexId) : Matcher :=
  { m with arena := m.arena.addList members, root := ⟨m.arena.listCount⟩ }

variable {t : Tree} {m : Matcher} {F : Routes} {members : List ComplexId} {l : ListId}
  {id : ComplexId} {d : CompoundId} {σ : ShadowScope} {n reference : NodeId}

/-! ### What a member finds -/

/-- Stored compounds are passed as they were. -/
theorem Infallible.passes_withMembers (H : Infallible t m F)
    (hd : d.index < m.arena.compounds.size) :
    (m.withMembers members).Passes σ d n ↔ m.Passes σ d n := by
  have ha := H.described.toSound
  have hgrows := m.arena.grows_addList members
  have hcompound : (m.withMembers members).matchCompound (m.withMembers members).inside σ d n =
      m.matchCompound m.inside σ d n := by
    rw [matchCompound_inArena (hgrows.compound hd)]
    refine matchCompound_of_lists (fun s hs l hl σ x => ?_) σ n
    have hstored := ((ha.compounds hd).lists s hs l hl).1
    exact nested_inArena hgrows.wordless ha _ hstored (Nat.lt_of_lt_of_le hstored hgrows.lists)
      hstored σ x
  unfold Passes
  rw [hcompound]

/-- A stored row leads to the right as it did. -/
theorem Infallible.leadsRight_withMembers (H : Infallible t m F)
    {steps : List (Combinator × CompoundId)}
    (hstored : ∀ d ∈ steps.map Prod.snd, d.index < m.arena.compounds.size) (a : NodeId) :
    LeadsRight (m.withMembers members) steps a n ↔ LeadsRight m steps a n := by
  induction steps generalizing a with
  | nil => exact Iff.rfl
  | cons step more ih =>
      obtain ⟨q, d⟩ := step
      have hpasses : ∀ b, (m.withMembers members).Passes m.shadow d b ↔ m.Passes m.shadow d b :=
        fun _ => H.passes_withMembers (hstored d List.mem_cons_self)
      have hmore := fun b hb => hstored b (List.mem_cons_of_mem d hb)
      refine exists_congr fun b => and_congr_right fun _ => ?_
      exact and_congr (hpasses b) (ih hmore b)

/-- **A member finds what it found**, whatever members the selector is given. -/
theorem Infallible.finds_withMembers (H : Infallible t m F)
    (hid : id ∈ (m.arena.list l).complexes) (members : List ComplexId) :
    Finds t (m.withMembers members) reference id n ↔ Finds t m reference id n := by
  have hl := Arena.lt_of_mem_list hid
  have hstored := (H.described.complexes (H.described.lists hl id hid)).compounds
  have hpasses : ∀ {d : CompoundId} {σ : ShadowScope} {x : NodeId},
      d ∈ (m.arena.complex id).compounds →
        ((m.withMembers members).Passes σ d x ↔ m.Passes σ d x) :=
    fun hd => H.passes_withMembers (hstored _ hd)
  have hfollows :
      (m.withMembers members).FollowsTo reference id n ↔ m.FollowsTo reference id n := by
    refine exists_congr fun a => and_congr_right fun _ => ?_
    have hsteps := fun d hd => hstored d (List.mem_cons_of_mem _ hd)
    exact and_congr (hpasses List.mem_cons_self) (H.leadsRight_withMembers hsteps a)
  have hrows : (∃ e, RowTo t (m.withMembers members) id n e) ↔ ∃ e, RowTo t m id n e := by
    refine exists_congr fun e => ?_
    constructor
    · intro hrow
      refine ⟨⟨hrow.joins, fun i d hd => ?_⟩, hrow.last⟩
      exact (hpasses (List.mem_of_getElem? hd)).mp (hrow.passes i d hd)
    · intro hrow
      refine ⟨⟨hrow.joins, fun i d hd => ?_⟩, hrow.last⟩
      exact (hpasses (List.mem_of_getElem? hd)).mpr (hrow.passes i d hd)
  constructor
  · intro hfinds
    exact ⟨hfinds.isReference, hfinds.isElement, hfinds.below,
      fun hfollowed => hfollows.mp (hfinds.followed hfollowed),
      fun htested => hrows.mp (hfinds.tested htested)⟩
  · intro hfinds
    exact ⟨hfinds.isReference, hfinds.isElement, hfinds.below,
      fun hfollowed => hfollows.mpr (hfinds.followed hfollowed),
      fun htested => hrows.mpr (hfinds.tested htested)⟩

end Matcher

namespace Query

variable {t : Tree} {s : CompiledSelector} {settings : Settings} {F : Routes}

/-- The members of a selector have one way, so a list of them can be described. -/
theorem exists_describes_addList (hF : F.Describes s.arena) {members : List ComplexId}
    (hmembers : ∀ id ∈ members, id ∈ (s.arena.list s.root).complexes) :
    ∃ F' : Routes, F'.Describes (s.arena.addList members) := by
  have hstored : ∀ id ∈ members, id.index < s.arena.complexes.size := fun id hid =>
    hF.lists (Arena.lt_of_mem_list (hmembers id hid)) id (hmembers id hid)
  have hroute : ∀ id ∈ members, F.complex id = F.list s.root := fun id hid =>
    hF.list (Arena.lt_of_mem_list (hmembers id hid)) id (hmembers id hid)
  obtain ⟨-, F', -, hF', -⟩ := hF.pushList
    (L := { complexes := members, containsHas := members.any s.arena.complexBearsHas })
    hstored hroute rfl
  exact ⟨F', hF'⟩

/-- **Some members of a selector alone** find, in document order, what each of them finds in it. -/
theorem answers_withMembers (ht : t.Proper) (hF : F.Describes s.arena)
    (hlenient : settings.strict = false) (hplain : ¬s.arena.NamesPrefix) (reference : NodeId)
    {members : List ComplexId} (hmembers : ∀ id ∈ members, id ∈ (s.arena.list s.root).complexes) :
    ∃ ns,
      (runFrom ((of t.view (s.withMembers members) reference settings).find .all) {}).1 = .ok ns ∧
        ns.Pairwise t.Precedes ∧
        ∀ n, n ∈ ns ↔ ∃ id ∈ members,
          (of t.view s reference settings).matcher.Finds t reference id n := by
  let m := (of t.view s reference settings).matcher
  have H : m.Infallible t F := infallible ht hF hlenient hplain
  obtain ⟨F', hF'⟩ := exists_describes_addList hF hmembers
  obtain ⟨ns, hns, horder, hmem⟩ :=
    answers (s := s.withMembers members) ht hF' hlenient hplain reference
  have hroot : ((s.withMembers members).arena.list (s.withMembers members).root).complexes =
      members :=
    Arena.list_addList_last s.arena members
  rw [hroot] at hmem
  refine ⟨ns, hns, horder, fun n => (hmem n).trans ?_⟩
  refine exists_congr fun id => and_congr_right fun hid => ?_
  exact H.finds_withMembers (hmembers id hid) members

end Query

namespace Engine

/-- **The result of a selector is the union of the results of its members**, each asked alone, in
document order and without repeats.  So any row of the same members has the same result. -/
theorem queryAll_isUnion {t : Tree} (ht : t.Proper) {e : Engine} (he : e.Reached)
    {settings : Settings} (hlenient : settings.strict = false) {text : String}
    {s : CompiledSelector} (hs : Selectors.compile text = .ok s) (hplain : ¬s.arena.NamesPrefix)
    (reference : NodeId) :
    ∃ (ns : List NodeId) (found : ComplexId → List NodeId),
      (e.queryAll t.view settings text reference).1.result = .ok ns ∧
      (∀ id ∈ (s.arena.list s.root).complexes,
        (answer ((Query.of t.view (s.withMembers [id]) reference settings).find .all)).result =
          .ok (found id)) ∧
      ns.Pairwise t.Precedes ∧ ns.Nodup ∧
      (∀ n, n ∈ ns ↔ ∃ id ∈ (s.arena.list s.root).complexes, n ∈ found id) ∧
      ∀ members : List ComplexId,
        (∀ id, id ∈ members ↔ id ∈ (s.arena.list s.root).complexes) →
          (answer ((Query.of t.view (s.withMembers members) reference settings).find .all)).result =
            .ok ns := by
  obtain ⟨F, hF, -⟩ := compile_describes hs
  have h := ht.wellFormed
  let m := (Query.of t.view s reference settings).matcher
  obtain ⟨ns, hns, horder, hmem⟩ := Query.answers ht hF hlenient hplain reference
  have halone : ∀ id, ∃ found, id ∈ (s.arena.list s.root).complexes →
      (runFrom ((Query.of t.view (s.withMembers [id]) reference settings).find .all) {}).1 =
          .ok found ∧
        ∀ n, n ∈ found ↔ m.Finds t reference id n := by
    intro id
    by_cases hid : id ∈ (s.arena.list s.root).complexes
    · have hone : ∀ id' ∈ [id], id' ∈ (s.arena.list s.root).complexes := by
        intro id' hid'
        rw [List.mem_singleton.mp hid']
        exact hid
      obtain ⟨found, hfound, -, hfinds⟩ :=
        Query.answers_withMembers ht hF hlenient hplain reference hone
      refine ⟨found, fun _ => ⟨hfound, fun n => (hfinds n).trans ?_⟩⟩
      simp only [List.mem_singleton, exists_eq_left]
      rfl
    · exact ⟨[], fun hmember => absurd hmember hid⟩
  choose found hfound using halone
  refine
    ⟨ns, found, ?_, fun id hid => (hfound id hid).1, horder, h.nodup_of_pairwise horder, ?_, ?_⟩
  · change (e.run t.view settings text reference .all).1.result = .ok ns
    rw [he.run_result_of_ok t.view settings hs]
    exact hns
  · intro n
    rw [hmem n]
    exact exists_congr fun id => and_congr_right fun hid => ((hfound id hid).2 n).symm
  · intro members hmembers
    obtain ⟨ns', hns', horder', hmem'⟩ := Query.answers_withMembers ht hF hlenient hplain reference
      (fun id hid => (hmembers id).mp hid)
    have hsame : ns' = ns := by
      refine h.eq_of_mem_iff horder' horder fun n => ?_
      rw [hmem' n, hmem n]
      exact exists_congr fun id => and_congr_left' (hmembers id)
    rw [answer_result, hns', hsame]

/-- A member that is tested and one that is followed, and both of them twice. -/
theorem queryAll_isUnion_attachedBox :
    ∃ s, Selectors.compile "div > p, #a" = .ok s ∧
      (s.arena.list s.root).complexes = [⟨0⟩, ⟨1⟩] ∧
      (answer ((Query.of Tree.attachedBox.view (s.withMembers [⟨0⟩]) 0 {}).find .all)).result =
        .ok [2, 3] ∧
      (answer ((Query.of Tree.attachedBox.view (s.withMembers [⟨1⟩]) 0 {}).find .all)).result =
        .ok [1] ∧
      (queryAll {} Tree.attachedBox.view {} "div > p, #a" 0).1.result = .ok [1, 2, 3] ∧
      (answer ((Query.of Tree.attachedBox.view (s.withMembers [⟨1⟩, ⟨0⟩, ⟨1⟩, ⟨0⟩]) 0 {}).find
        .all)).result = .ok [1, 2, 3] := by
  let s := (Selectors.compile "div > p, #a").toOption.get (by decide +kernel)
  have hs : Selectors.compile "div > p, #a" = .ok s := by
    decide +kernel
  have hmembers : (s.arena.list s.root).complexes = [⟨0⟩, ⟨1⟩] := by
    decide +kernel
  have hone : (answer ((Query.of Tree.attachedBox.view (s.withMembers [⟨0⟩]) 0 {}).find
      .all)).result = .ok [2, 3] := by
    decide +kernel
  have htwo : (answer ((Query.of Tree.attachedBox.view (s.withMembers [⟨1⟩]) 0 {}).find
      .all)).result = .ok [1] := by
    decide +kernel
  have hlenient : ({} : Settings).strict = false := rfl
  obtain ⟨ns, found, hall, halone, horder, -, hmem, hany⟩ :=
    queryAll_isUnion Tree.attachedBox_proper .new hlenient hs (by decide +kernel) 0
  rw [hmembers] at halone hmem hany
  have hfirst : found ⟨0⟩ = [2, 3] := by
    have hfound := halone ⟨0⟩ (by decide)
    rw [hone] at hfound
    exact (Except.ok.inj hfound).symm
  have hsecond : found ⟨1⟩ = [1] := by
    have hfound := halone ⟨1⟩ (by decide)
    rw [htwo] at hfound
    exact (Except.ok.inj hfound).symm
  have hresult : ns = [1, 2, 3] := by
    have hrow : [1, 2, 3].Pairwise Tree.attachedBox.Precedes := by
      unfold Tree.Precedes
      decide +kernel
    refine Tree.attachedBox_proper.wellFormed.eq_of_mem_iff horder hrow fun n => ?_
    rw [hmem n]
    simp only [List.mem_cons, List.not_mem_nil, or_false, exists_eq_or_imp, exists_eq_left, hfirst,
      hsecond]
    tauto
  subst hresult
  refine ⟨s, hs, hmembers, hone, htwo, hall, hany _ fun id => ?_⟩
  simp only [List.mem_cons, List.not_mem_nil, or_false]
  tauto

end Engine

end Selectors

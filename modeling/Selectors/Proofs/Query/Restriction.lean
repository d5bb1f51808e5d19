import Selectors.Proofs.Query.Agreement

/-!
# Queries of a part of a tree

A query may look for its results anywhere in the tree of its reference: what is tested looks up
beyond the reference, and what is followed starts at the root of the whole tree.  Two references in
one tree therefore see the same rows of matched nodes.  They differ in what `:scope` stands for, and
in what of the results they keep.  So below an inner reference a query finds the part of the outer
result that lies there.

* `Query.found_congr` says that the rows to be found are a matter of the tree.
* `Engine.queryAll_restricts` is the comparison of the two results.
-/

namespace Selectors

namespace Tree

/-- Being a descendant is standing below. -/
theorem WellFormed.isDescendant_iff {t : Tree} (h : t.WellFormed) {n a : NodeId} :
    t.isDescendant n a = true ↔ t.Below n a := by
  rw [isDescendant, List.contains_iff_mem, h.mem_ancestors]

end Tree

namespace Query

variable {t : Tree} {s : CompiledSelector} {settings : Settings} {reference inner n : NodeId}

/-- **Two references in one tree have the same rows to find**, where nothing asks for `:scope`. -/
theorem found_congr (ht : t.Proper) {F : Routes} (hF : F.Describes s.arena)
    (hlenient : settings.strict = false) (hscope : ¬s.arena.AsksScope)
    (hplain : ¬s.arena.NamesPrefix) (hroot : t.rootOf inner = t.rootOf reference) :
    (of t.view s inner settings).matcher.Found t n ↔
      (of t.view s reference settings).matcher.Found t n := by
  let m := (of t.view s reference settings).matcher
  have H : m.Infallible t F := infallible ht hF hlenient hplain
  have hm : (of t.view s inner settings).matcher = m.tuned (some inner) false true :=
    matcher_of_sameTree hlenient hroot
  rw [hm]
  refine exists_congr fun id => and_congr_right fun hid => exists_congr fun e => ?_
  have hrows : Matcher.RowTo t (m.tuned (some inner) false true) id n e ↔ m.RowTo t id n e :=
    H.rowTo_tuned hscope hid (some inner)
  exact and_congr_left' hrows

/-- Below an inner reference is found what is found below the outer one and lies there. -/
theorem finds_restrict (ht : t.Proper) {F : Routes} (hF : F.Describes s.arena)
    (hlenient : settings.strict = false) (hscope : ¬s.arena.AsksScope)
    (hplain : ¬s.arena.NamesPrefix)
    (hkind : t.kind reference ∈ [NodeKind.document, .fragment, .shadowRoot, .element])
    (hinner : t.view.isElement inner = true) (hbelow : t.Below inner reference) :
    (∃ id ∈ (s.arena.list s.root).complexes,
        (of t.view s inner settings).matcher.Finds t inner id n) ↔
      (∃ id ∈ (s.arena.list s.root).complexes,
        (of t.view s reference settings).matcher.Finds t reference id n) ∧ t.Below n inner := by
  let m := (of t.view s reference settings).matcher
  let m' := (of t.view s inner settings).matcher
  have H : m.Infallible t F := infallible ht hF hlenient hplain
  have H' : m'.Infallible t F := infallible ht hF hlenient hplain
  have hkind' : t.kind inner ∈ [NodeKind.document, .fragment, .shadowRoot, .element] := by
    have helement : t.kind inner = .element := beq_iff_eq.mp hinner
    rw [helement]
    decide
  have houter := H.finds_iff_found (n := n) hscope (Matcher.isReference_of_kind rfl hkind)
  have hinside := H'.finds_iff_found (n := n) hscope (Matcher.isReference_of_kind rfl hkind')
  have hrows : m'.Found t n ↔ m.Found t n :=
    found_congr ht hF hlenient hscope hplain (ht.wellFormed.rootOf_of_below hbelow)
  constructor
  · intro hfinds
    obtain ⟨helement, hn, hfound⟩ := hinside.mp hfinds
    have hfound' : m.Found t n := hrows.mp hfound
    exact ⟨houter.mpr ⟨helement, hn.trans hbelow, hfound'⟩, hn⟩
  · intro hfinds
    obtain ⟨hfinds, hn⟩ := hfinds
    obtain ⟨helement, -, hfound⟩ := houter.mp hfinds
    have hfound' : m'.Found t n := hrows.mpr hfound
    exact hinside.mpr ⟨helement, hn, hfound'⟩

end Query

namespace Engine

/-- **Asking below an inner element gives a part of the result**: of what a query finds below a
reference, the nodes that lie below the inner element, in the same order. -/
theorem queryAll_restricts {t : Tree} (ht : t.Proper) {e e' : Engine} (he : e.Reached)
    (he' : e'.Reached) {settings : Settings} (hlenient : settings.strict = false) {text : String}
    {s : CompiledSelector} (hs : Selectors.compile text = .ok s) (hscope : ¬s.arena.AsksScope)
    (hplain : ¬s.arena.NamesPrefix) {reference inner : NodeId}
    (hkind : t.kind reference ∈ [NodeKind.document, .fragment, .shadowRoot, .element])
    (hinner : t.view.isElement inner = true) (hbelow : t.Below inner reference) :
    ∃ ns, (e.queryAll t.view settings text reference).1.result = .ok ns ∧
      (e'.queryAll t.view settings text inner).1.result =
        .ok (ns.filter fun n => t.isDescendant n inner) := by
  obtain ⟨F, hF, -⟩ := compile_describes hs
  obtain ⟨ns, hns, horder, hmem⟩ := Query.answers ht hF hlenient hplain reference
  obtain ⟨ns', hns', horder', hmem'⟩ := Query.answers ht hF hlenient hplain inner
  have hpart : ns' = ns.filter fun n => t.isDescendant n inner := by
    have hfiltered : (ns.filter fun n => t.isDescendant n inner).Pairwise t.Precedes :=
      horder.sublist List.filter_sublist
    refine ht.wellFormed.eq_of_mem_iff horder' hfiltered fun n => ?_
    rw [hmem' n, Query.finds_restrict ht hF hlenient hscope hplain hkind hinner hbelow,
      List.mem_filter, hmem n, ht.wellFormed.isDescendant_iff]
  refine ⟨ns, ?_, ?_⟩
  · change (e.run t.view settings text reference .all).1.result = .ok ns
    rw [he.run_result_of_ok t.view settings hs]
    exact hns
  · change (e'.run t.view settings text inner .all).1.result = _
    rw [he'.run_result_of_ok t.view settings hs, ← hpart]
    exact hns'

/-- In the attached box a query from the element finds those of the results for the document that
stand below it. -/
theorem queryAll_restricts_attachedBox :
    (queryAll {} Tree.attachedBox.view {} "div, div > p" 0).1.result = .ok [1, 2, 3] ∧
      [1, 2, 3].filter (fun n => Tree.attachedBox.isDescendant n 1) = [2, 3] ∧
      (queryAll {} Tree.attachedBox.view {} "div, div > p" 1).1.result = .ok [2, 3] := by
  have hall : (queryAll {} Tree.attachedBox.view {} "div, div > p" 0).1.result = .ok [1, 2, 3] := by
    decide +kernel
  have hpart : [1, 2, 3].filter (fun n => Tree.attachedBox.isDescendant n 1) = [2, 3] := by
    decide +kernel
  let s := (Selectors.compile "div, div > p").toOption.get (by decide +kernel)
  have hs : Selectors.compile "div, div > p" = .ok s := by
    decide +kernel
  have hbelow : Tree.attachedBox.Below 1 0 := by
    apply Relation.TransGen.single
    decide +kernel
  have hlenient : ({} : Settings).strict = false := rfl
  obtain ⟨ns, houter, hinner⟩ := queryAll_restricts Tree.attachedBox_proper .new .new hlenient hs
    (by decide +kernel) (by decide +kernel) (by decide +kernel) (by decide +kernel) hbelow
  rw [hall] at houter
  cases houter
  rw [hpart] at hinner
  exact ⟨hall, hpart, hinner⟩

end Engine

end Selectors

import Selectors.Proofs.Matching.Alone
import Selectors.Proofs.Matching.Growth
import Selectors.Proofs.Query.Members

/-!
# Wrappers are transparent

`:is(S)`, `:where(S)` and `:not(:not(S))` match the elements that `S` matches.  In the wrapper the
parts of `S` are compiled as they are alone, and what is stored behind them is a list with nothing
but the wrapper, so that matching it is matching the list of `S`, one or two levels further down.

Two conditions are about the text.  What is behind it has to be read as the end of the wrapper,
and not as a part of the text; and the check of brackets has to accept the whole.  It accepts a text
that leaves parentheses open, for they are closed where the wrapper ends.  A square bracket is not
closed there, and a text that leaves one open compiles alone only.

* `Wrapper.Holds.matchesNode` is the comparison of two arenas.
* `Wrapper.isTransparent` is the result, and `Wrapper.invalidToken_openAttribute` the limit of it.
-/

namespace Selectors

open Token

namespace Arena

variable {a : Arena} {p : PseudoClass} {l inner : ListId}

/-- The argument of a pseudo-class is stored before it. -/
theorem HoldsAlone.lt (h : a.HoldsAlone p l) (ha : a.Sound) (hinner : p.nestedList? = some inner) :
    inner.index < l.index := by
  obtain ⟨-, c, d, hlist, -, hfirst, -, -, -, horder⟩ := h
  have hsimple : .pseudo p ∈ (a.compound d).simples := by
    refine Compound.mem_simples ?_
    rw [horder]
    exact List.mem_singleton_self _
  have hcompound : d ∈ (a.complex c).compounds := by
    rw [ComplexSelector.compounds, hfirst]
    exact List.mem_cons_self
  have hmember : c ∈ (a.list l).complexes := by
    rw [hlist]
    exact List.mem_singleton_self c
  exact ha.smaller_of_nests ⟨c, hmember, d, hcompound, .pseudo p, hsimple, hinner⟩

end Arena

/-- The matcher of a selector in a tree. -/
abbrev CompiledSelector.matcher (s : CompiledSelector) (t : TreeView) (scope : Option NodeId)
    (shadow : ShadowScope) (strict remembers : Bool) : Matcher :=
  { tree := t, arena := s.arena, root := s.root, scope, shadow, strict, remembers }

namespace Wrapper

open Matcher

variable {m : Matcher} {a : Arena} {root : ListId} {n : NodeId}

/-- **What a wrapper makes of a list matches as the list**, in an arena in which it is stored. -/
theorem Holds.matchesNode {w : Wrapper} (h : w.Holds a m.root root) (ha : m.arena.Sound)
    (hgrows : m.arena.wordless.Grows a.wordless) (ha' : a.Sound)
    (hroot : m.root.index < m.arena.listCount) (hn : m.tree.isElement n = true) :
    (m.inArena a root).matchesNode n = m.matchesNode n := by
  have hlist : ∀ depth, m.root.index < depth →
      ((m.inArena a root).nested depth).list m.shadow m.root n = m.matchesNode n :=
    fun depth hdepth =>
      (nested_inArena hgrows ha root hroot hdepth (Nat.lt_succ_of_lt hroot) m.shadow n).1
  have hcount : m.root.index < a.listCount := Nat.lt_of_lt_of_le hroot hgrows.lists
  have hmatches : (m.inArena a root).matchesNode n =
      ((m.inArena a root).nested (a.listCount + 1)).list m.shadow root n := rfl
  rw [hmatches]
  cases w with
  | is =>
      rw [nested_of_holdsAlone (m := m.inArena a root) h hn]
      exact hlist a.listCount hcount
  | whereAny =>
      rw [nested_of_holdsAlone (m := m.inArena a root) h hn]
      exact hlist a.listCount hcount
  | notNot =>
      obtain ⟨l, hl, houter⟩ := h
      rw [nested_of_holdsAlone (m := m.inArena a root) houter hn]
      have hinner := hl.lt ha' rfl
      have hstored : l.index < a.listCount := hl.stored
      obtain ⟨depth, hdepth⟩ := Nat.exists_eq_succ_of_ne_zero (Nat.ne_zero_of_lt hstored)
      rw [hdepth]
      change (do return !(← ((m.inArena a root).nested (depth + 1)).list m.shadow l n)) = _
      rw [nested_of_holdsAlone (m := m.inArena a root) hl hn]
      change (do return !(← (do
        return !(← ((m.inArena a root).nested depth).list m.shadow m.root n)))) = _
      rw [hlist depth (by omega)]
      simp

end Wrapper

end Selectors

import Selectors.Proofs.Tree.Ancestry

/-!
# Runs of changes

Whatever is created, inserted, moved, removed and given a shadow root, in whatever order, the links
of the store agree afterwards, even where a node was put below itself.  A single insertion or
removal changes the place of one node and nothing else: all other nodes keep their parents and
their order, and child lists that the node neither leaves nor enters stay as they are.

* `Tree.Admits` asks something of each change of a row, in the tree it is made in.
* `Tree.apply_linked` and `Tree.apply_ranked` are the two steps; `Tree.Admits.foldl` makes them
  runs.
* `Tree.MovesOnly` says that only one node moves, and `Tree.linked_of_changes` is the result.
-/

namespace Selectors

instance : DecidablePred NodeData.IsFresh
  | .shadowRoot .. => .isFalse id
  | .element e => inferInstanceAs (Decidable (e.shadowRoot = none))
  | .document | .fragment | .text _ | .comment _ => .isTrue trivial

namespace Change

instance (t : Tree) : DecidablePred (InRange t)
  | .create data => inferInstanceAs (Decidable data.IsFresh)
  | .insert parent child _ | .remove parent child =>
    inferInstanceAs (Decidable (parent < t.size ∧ child < t.size))
  | .attachShadow n _ | .setAttribute n .. | .setAttributeIn n .. | .removeAttribute n _
  | .setLive n _ => inferInstanceAs (Decidable (n < t.size))
  | .setDocument _ => .isTrue trivial

/-- No node is put under itself or under a node below it. -/
def StaysAbove (t : Tree) : Change → Prop
  | .insert parent child _ => parent ≠ child ∧ ¬ t.Below parent child
  | _ => True

/-- Only a node that may be a child and from which nothing hangs is inserted, and not under
itself. -/
def InsertsBare (t : Tree) : Change → Prop
  | .insert parent child _ => (t.data? child).all (fun data => !data.staysRoot) = true ∧
    t.children child = [] ∧ t.shadowRoot child = none ∧ parent ≠ child
  | _ => True

instance (t : Tree) : DecidablePred (InsertsBare t)
  | .insert parent child _ =>
    inferInstanceAs (Decidable ((t.data? child).all (fun data => !data.staysRoot) = true ∧
      t.children child = [] ∧ t.shadowRoot child = none ∧ parent ≠ child))
  | .create _ | .remove .. | .attachShadow .. | .setAttribute .. | .setAttributeIn ..
  | .removeAttribute .. | .setLive .. | .setDocument _ => .isTrue trivial

end Change

namespace Tree

/-- Each change of a row is admitted in the tree that the changes before it lead to. -/
def Admits (P : Tree → Change → Prop) : Tree → List Change → Prop
  | _, [] => True
  | t, c :: cs => P t c ∧ Admits P (t.apply c) cs

instance decidableAdmits {P : Tree → Change → Prop} [∀ t, DecidablePred (P t)] (t : Tree) :
    DecidablePred (Admits P t)
  | [] => .isTrue trivial
  | c :: cs =>
    have := decidableAdmits (P := P) (t.apply c) cs
    inferInstanceAs (Decidable (P t c ∧ Admits P (t.apply c) cs))

variable {t : Tree} {P Q : Tree → Change → Prop} {cs : List Change}

/-- What every admitted change keeps, the whole row keeps. -/
theorem Admits.foldl {I : Tree → Prop} (hstep : ∀ t c, P t c → I t → I (t.apply c))
    (h : Admits P t cs) (ht : I t) : I (cs.foldl apply t) := by
  induction cs generalizing t with
  | nil => exact ht
  | cons c cs ih => exact ih h.2 (hstep t c h.1 ht)

/-- Changes that are admitted in two ways are admitted in both at once. -/
theorem Admits.and (hP : Admits P t cs) (hQ : Admits Q t cs) :
    Admits (fun t c => P t c ∧ Q t c) t cs := by
  induction cs generalizing t with
  | nil => trivial
  | cons c cs ih => exact ⟨⟨hP.1, hQ.1⟩, ih hP.2 hQ.2⟩

/-- A node without a parent stands above all that is put under it. -/
theorem staysAbove_of_root {p c : NodeId} (reference : Option NodeId) (hp : t.parent p = none)
    (hne : p ≠ c) : (Change.insert p c reference).StaysAbove t := by
  refine ⟨hne, fun hbelow => ?_⟩
  obtain ⟨q, hq, -⟩ := Relation.TransGen.head'_iff.mp hbelow
  rw [hp] at hq
  cases hq

/-! ### Links -/

/-- Changes other than insertions and removals leave all links alone. -/
theorem sameLinks_apply (t : Tree) {c : Change}
    (hinsert : ∀ p n reference, c ≠ .insert p n reference) (hremove : ∀ p n, c ≠ .remove p n) :
    SameLinks t (t.apply c) := by
  cases c with
  | create data => exact sameLinks_create t data
  | insert p n reference => exact absurd rfl (hinsert p n reference)
  | remove p n => exact absurd rfl (hremove p n)
  | attachShadow host mode => exact sameLinks_attachShadow t host mode
  | setAttribute n name value => exact sameLinks_modifyElement t n _
  | setAttributeIn n space name value => exact sameLinks_modifyElement t n _
  | removeAttribute n name => exact sameLinks_modifyElement t n _
  | setLive n f => exact sameLinks_modifyElement t n _
  | setDocument f => exact ⟨rfl, rfl, rfl, rfl⟩

/-- **A change keeps the links consistent.** -/
theorem apply_linked (h : t.Linked) {c : Change} (hc : c.InRange t) : (t.apply c).Linked := by
  cases c with
  | insert p n reference => exact insertBefore_linked h hc.1 hc.2 reference
  | remove p n => exact removeChild_linked h p n
  | _ => exact h.of_sameLinks (sameLinks_apply t (by simp) (by simp))

/-! ### Ranks -/

/-- Some rank falls on the way to the parent. -/
def Ranked (t : Tree) : Prop :=
  ∃ rank : NodeId → Nat, ∀ {n m}, t.parent n = some m → rank m < rank n

/-- Where ranks fall nothing stands below itself. -/
theorem Ranked.not_below_self (h : t.Ranked) (n : NodeId) : ¬ t.Below n n := by
  obtain ⟨rank, hrank⟩ := h
  intro hn
  exact Nat.lt_irrefl _ (rank_lt_of_transGen hn hrank)

/-- **A change that puts no node below itself keeps the parent relation ranked.** -/
theorem apply_ranked (h : t.Linked) (hranked : t.Ranked) {c : Change} (hc : c.InRange t)
    (habove : c.StaysAbove t) : (t.apply c).Ranked := by
  have hsame : ∀ {t' : Tree}, t'.parent = t.parent → t'.Ranked := by
    intro t' hparent
    unfold Ranked
    rw [hparent]
    exact hranked
  cases c with
  | insert p n reference =>
      obtain ⟨hne, hout⟩ := habove
      refine exists_rank_of_moved hranked (p := p) (c := n) (fun {a b} hab => ?_) ?_
      · change (t.insertBefore p n reference).parent a = some b at hab
        rw [parent_insertBefore h p hc.2] at hab
        by_cases ha : a = n
        · rw [if_pos ha] at hab
          exact Or.inl ⟨ha, (Option.some.inj hab).symm⟩
        · rw [if_neg ha] at hab
          exact Or.inr hab
      · intro hwithin
        rcases Relation.reflTransGen_iff_eq_or_transGen.mp hwithin with heq | hbelow
        · exact hne heq.symm
        · exact hout hbelow
  | remove p n =>
      change (t.removeChild p n).Ranked
      by_cases hn : n ∈ t.children p
      · obtain ⟨rank, hrank⟩ := hranked
        refine ⟨rank, fun {a b} hab => hrank ?_⟩
        rw [parent_removeChild h hn] at hab
        by_cases ha : a = n
        · rw [if_pos ha] at hab
          cases hab
        · rwa [if_neg ha] at hab
      · rw [removeChild_of_not_mem hn]
        exact hranked
  | _ => exact hsame (sameLinks_apply t (by simp) (by simp)).parent

/-! ### Proper trees -/

/-- Changes that keep trees trees lead from proper trees to proper trees. -/
theorem Proper.foldl (ht : t.Proper)
    (hcs : Admits (fun t c => c.InRange t ∧ c.KeepsTrees t) t cs) : (cs.foldl apply t).Proper :=
  hcs.foldl (fun _ _ hc ht => ht.step hc.1 hc.2) ht

/-- A node from which nothing hangs stands above no other node. -/
theorem WellFormed.keepsTrees_of_insertsBare (h : t.WellFormed) {c : Change}
    (hc : c.InsertsBare t) : c.KeepsTrees t := by
  cases c with
  | insert p n reference =>
      obtain ⟨hdata, hchildren, hshadow, hne⟩ := hc
      refine ⟨fun d hd => ?_, fun hwithin => ?_⟩
      · rw [hd] at hdata
        simpa using hdata
      · rcases Relation.ReflTransGen.cases_tail hwithin with heq | ⟨m, -, hparent | hhost⟩
        · exact hne heq.symm
        · rw [← h.mem_children, hchildren] at hparent
          cases hparent
        · rw [← h.shadow, hshadow] at hhost
          cases hhost
  | _ => trivial

/-- A row of changes that inserts bare nodes only keeps trees trees. -/
theorem Proper.admits_of_insertsBare (ht : t.Proper)
    (hcs : Admits (fun t c => c.InRange t ∧ c.InsertsBare t) t cs) :
    Admits (fun t c => c.InRange t ∧ c.KeepsTrees t) t cs := by
  induction cs generalizing t with
  | nil => trivial
  | cons c cs ih =>
      obtain ⟨⟨hrange, hbare⟩, hrest⟩ := hcs
      have hkeeps := ht.wellFormed.keepsTrees_of_insertsBare hbare
      exact ⟨⟨hrange, hkeeps⟩, ih (ht.step hrange hkeeps) hrest⟩

/-! ### Single moves -/

/-- From the first tree to the second only the node `c` moves, and its parent is `target` in the
end.  Every child list without `c` is the same in both, and where `c` neither leaves nor enters a
list the whole list is. -/
structure MovesOnly (t t' : Tree) (c : NodeId) (target : Option NodeId) : Prop where
  parent : ∀ m, t'.parent m = if m = c then target else t.parent m
  order : ∀ q, (t'.children q).erase c = (t.children q).erase c
  apart : ∀ q, t.parent c ≠ some q → target ≠ some q → t'.children q = t.children q

/-- Taking a new child out of a list again gives the list back. -/
theorem erase_placed {c : NodeId} (reference : Option NodeId) {cs : List NodeId} (hc : c ∉ cs) :
    (placed c reference cs).erase c = cs := by
  cases reference with
  | none => rw [placed, List.erase_append_right _ hc, List.erase_cons_head, List.append_nil]
  | some r =>
      change (placeBefore c r cs).erase c = cs
      induction cs with
      | nil => exact List.erase_cons_head c []
      | cons a cs ih =>
          rw [List.mem_cons, not_or] at hc
          have hne : (a == c) = false := beq_eq_false_iff_ne.mpr (Ne.symm hc.1)
          unfold placeBefore
          by_cases ha : a = r
          · rw [if_pos ha]
            exact List.erase_cons_head c (a :: cs)
          · rw [if_neg ha, List.erase_cons_tail (by simp [hne]), ih hc.2]

/-- **An insertion moves the child only**, whatever the reference is. -/
theorem insertBefore_movesOnly (h : t.Linked) {p c : NodeId} (hp : p < t.size) (hc : c < t.size)
    (reference : Option NodeId) : MovesOnly t (t.insertBefore p c reference) c (some p) where
  parent := parent_insertBefore h p hc reference
  order q := by
    have hgone : c ∉ (t.children q).erase c := (h.nodup q).not_mem_erase
    rw [children_insertBefore h hp]
    by_cases hq : q = p
    · subst hq
      rw [if_pos rfl, erase_placed reference hgone]
    · rw [if_neg hq, List.erase_of_not_mem hgone]
  apart q hfrom hto := by
    have hq : q ≠ p := fun heq => hto (congrArg some heq.symm)
    rw [children_insertBefore h hp, if_neg hq]
    exact List.erase_of_not_mem (mt h.mem_children.mp hfrom)

/-- **A removal moves the child only**, and nothing where the node is no child. -/
theorem removeChild_movesOnly (h : t.Linked) (p c : NodeId) :
    MovesOnly t (t.removeChild p c) c (if t.parent c = some p then none else t.parent c) where
  parent m := by
    by_cases hc : t.parent c = some p
    · rw [parent_removeChild h (h.mem_children.mpr hc), if_pos hc]
    · rw [removeChild_of_not_mem (mt h.mem_children.mp hc), if_neg hc]
      by_cases hm : m = c
      · rw [if_pos hm, hm]
      · rw [if_neg hm]
  order q := by
    have hgone : c ∉ (t.children q).erase c := (h.nodup q).not_mem_erase
    rw [children_removeChild]
    by_cases hq : q = p
    · subst hq
      rw [if_pos rfl, List.erase_of_not_mem hgone]
    · rw [if_neg hq]
  apart q hfrom _ := by
    rw [children_removeChild]
    by_cases hq : q = p
    · subst hq
      rw [if_pos rfl]
      exact List.erase_of_not_mem (mt h.mem_children.mp hfrom)
    · rw [if_neg hq]

/-! ### Whole runs -/

/-- The links of a tree of a document only have a rank. -/
theorem empty_ranked (content : ContentType) : (Tree.empty content).Ranked := by
  obtain ⟨rank, hrank⟩ := (empty_wellFormed content).ranked
  exact ⟨rank, fun hp => hrank (Or.inl hp)⟩

/-- **After any run of changes the links agree**: child lists and parents, no child twice, siblings
the neighbours in the list and none without a parent.  From there an insertion or a removal moves
one node only.  Where no change of the run put a node below itself, none is below itself. -/
theorem linked_of_changes {content : ContentType} {cs : List Change}
    (hrange : Admits Change.InRange (Tree.empty content) cs) :
    let t := cs.foldl apply (Tree.empty content)
    t.Linked ∧
      (∀ p c reference, p < t.size → c < t.size →
        MovesOnly t (t.insertBefore p c reference) c (some p)) ∧
      (∀ p c, MovesOnly t (t.removeChild p c) c
        (if t.parent c = some p then none else t.parent c)) ∧
      (Admits Change.StaysAbove (Tree.empty content) cs → ∀ n, ¬ t.Below n n) := by
  intro t
  have hempty : (Tree.empty content).Linked := (empty_wellFormed content).toLinked
  have hlinked : t.Linked := hrange.foldl (fun _ _ hc ht => apply_linked ht hc) hempty
  refine ⟨hlinked, ?_, ?_, ?_⟩
  · intro p c reference hp hc
    exact insertBefore_movesOnly hlinked hp hc reference
  · intro p c
    exact removeChild_movesOnly hlinked p c
  · intro habove
    have hboth : t.Linked ∧ t.Ranked := by
      refine (hrange.and habove).foldl (I := fun t => t.Linked ∧ t.Ranked) ?_
        ⟨hempty, empty_ranked content⟩
      intro t c hc ht
      exact ⟨apply_linked ht.1 hc.1, apply_ranked ht.1 ht.2 hc.1 hc.2⟩
    exact hboth.2.not_below_self

/-- A row of changes with a move to the end, the child itself for a reference, one that is no child,
and a removal of what is no child. -/
def shuffle : List Change :=
  [.create (.element (Element.named none "a")), .create (.element (Element.named none "b")),
    .create (.element (Element.named none "c")), .insert 0 1 none, .insert 0 2 (some 1),
    .insert 0 2 none, .insert 0 1 (some 1), .remove 3 2, .insert 3 1 (some 2), .insert 0 3 (some 2),
    .attachShadow 3 .opened]

/-- A shuffle of children that are moved, removed and put back: the links agree. -/
theorem linked_of_changes_shuffle :
    let t := shuffle.foldl apply (Tree.empty .html)
    Admits Change.InRange (Tree.empty .html) shuffle ∧ t.children 0 = [3, 2] ∧ t.Linked ∧
      MovesOnly t (t.insertBefore 3 2 (some 1)) 2 (some 3) ∧
      MovesOnly t (t.removeChild 3 1) 1 none ∧ ∀ n, ¬ t.Below n n := by
  intro t
  have hrange : Admits Change.InRange (Tree.empty .html) shuffle := by
    decide +kernel
  have habove : Admits Change.StaysAbove (Tree.empty .html) shuffle := by
    refine ⟨trivial, trivial, trivial, ?_, ?_, ?_, ?_, trivial, ?_, ?_, trivial, trivial⟩
    all_goals exact staysAbove_of_root _ (by decide +kernel) (by decide +kernel)
  obtain ⟨hlinked, hinsert, hremove, hacyclic⟩ := linked_of_changes hrange
  have hchild : t.parent 1 = some 3 := by
    decide +kernel
  have hremoved := hremove 3 1
  rw [if_pos hchild] at hremoved
  have hmoved := hinsert 3 2 (some 1) (by decide +kernel) (by decide +kernel)
  exact ⟨hrange, by decide +kernel, hlinked, hmoved, hremoved, hacyclic habove⟩

end Tree

end Selectors

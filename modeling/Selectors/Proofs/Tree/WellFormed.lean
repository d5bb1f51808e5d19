import Selectors.Proofs.Tree.Linked

/-!
# Well-formed trees

A store of nodes is a set of trees when its links are consistent, when no node hangs from itself, be
it through parents or hosts, and when a host and its shadow root know each other.  Every proper tree
is well formed, and nothing else about the way it was made matters later on.

Each kind of change has one theorem here, and `Tree.Proper.wellFormed` is the run of them.
-/

namespace Selectors.Tree

/-- A store whose nodes form trees. -/
structure WellFormed (t : Tree) : Prop extends t.Linked where
  /-- Nothing hangs from itself: some rank falls on the way up, through hosts too. -/
  ranked : ∃ rank : NodeId → Nat, ∀ {n m}, t.HangsFrom n m → rank m < rank n
  roots : ∀ {n d}, t.data? n = some d → d.staysRoot = true → t.parent n = none
  shadow : ∀ {h r}, t.shadowRoot h = some r ↔ t.shadowHost r = some h

/-! ### Changes that move nothing -/

/-- Two trees with the same links of every kind. -/
structure SameLinks (t t' : Tree) : Prop where
  parent : t'.parent = t.parent
  children : t'.children = t.children
  previous : t'.previous = t.previous
  next : t'.next = t.next

/-- Links that have not changed still agree. -/
theorem Linked.of_sameLinks {t t' : Tree} (h : t.Linked) (hsame : SameLinks t t') :
    t'.Linked := by
  obtain ⟨hparent, hchildren, hprevious, hnext⟩ := hsame
  refine ⟨?_, ?_, ?_, ?_⟩
  · intro p c
    rw [hchildren, hparent]
    exact h.mem_children
  · intro p
    rw [hchildren]
    exact h.nodup p
  · intro p c pre post hsplit
    rw [hchildren] at hsplit
    rw [hprevious, hnext]
    exact h.links hsplit
  · intro c hc
    rw [hparent] at hc
    rw [hprevious, hnext]
    exact h.alone hc

/-- Where parents and hosts are the same, the same nodes hang from each other. -/
theorem HangsFrom.congr {t t' : Tree} (hparent : t'.parent = t.parent)
    (hhost : t'.shadowHost = t.shadowHost) : t'.HangsFrom = t.HangsFrom := by
  funext n m
  unfold HangsFrom
  rw [hparent, hhost]

/-- Changing an element changes no other kind of node and moves nothing. -/
theorem data?_modifyElement (t : Tree) (n m : NodeId) (f : Element → Element) :
    (t.modifyElement n f).data? m =
      if n = m then (t.data? m).map fun
        | .element e => .element (f e)
        | d => d
      else t.data? m := by
  unfold modifyElement
  rw [data?_modify]
  split
  · cases hget : t.get? m with
    | none => simp [data?, hget]
    | some node => cases hdata : node.data <;> simp [data?, hget, hdata]
  · rfl

/-- A change to a node that keeps its own links keeps all links. -/
theorem sameLinks_modify (t : Tree) (n : NodeId) {f : Node → Node}
    (hf : ∀ node, (f node).parent = node.parent ∧ (f node).children = node.children ∧
      (f node).previous = node.previous ∧ (f node).next = node.next) :
    SameLinks t (t.modify n f) := by
  refine ⟨?_, ?_, ?_, ?_⟩ <;> funext m
  · rw [parent_modify]
    split
    · cases hget : t.get? m <;> simp [parent, hget, hf]
    · rfl
  · rw [children_modify]
    split <;> simp [children, Function.comp_def, hf]
  · rw [previous_modify]
    split
    · cases hget : t.get? m <;> simp [previous, hget, hf]
    · rfl
  · rw [next_modify]
    split
    · cases hget : t.get? m <;> simp [next, hget, hf]
    · rfl

/-- A change to an element keeps all links. -/
theorem sameLinks_modifyElement (t : Tree) (n : NodeId) (f : Element → Element) :
    SameLinks t (t.modifyElement n f) := by
  refine sameLinks_modify t n ?_
  intro node
  cases hdata : node.data <;> simp

@[simp] theorem size_modifyElement (t : Tree) (n : NodeId) (f : Element → Element) :
    (t.modifyElement n f).size = t.size :=
  size_modify ..

/-- A change to an element keeps every host. -/
theorem shadowHost_modifyElement (t : Tree) (n : NodeId) (f : Element → Element) :
    (t.modifyElement n f).shadowHost = t.shadowHost := by
  funext m
  unfold shadowHost
  rw [data?_modifyElement]
  by_cases hm : n = m
  · rw [if_pos hm]
    cases t.data? m with
    | none => rfl
    | some d => cases d <;> rfl
  · rw [if_neg hm]

/-- A change to an element is a change to that element only. -/
theorem element?_modifyElement (t : Tree) (n m : NodeId) (f : Element → Element) :
    (t.modifyElement n f).element? m =
      if n = m then (t.element? m).map f else t.element? m := by
  unfold element?
  rw [data?_modifyElement]
  by_cases hm : n = m
  · rw [if_pos hm, if_pos hm]
    cases t.data? m with
    | none => rfl
    | some d => cases d <;> rfl
  · rw [if_neg hm, if_neg hm]

/-- **A change of an element that leaves its shadow root alone keeps a tree well formed.** -/
theorem modifyElement_wellFormed {t : Tree} (h : t.WellFormed) (n : NodeId)
    {f : Element → Element} (hf : ∀ e, (f e).shadowRoot = e.shadowRoot) :
    (t.modifyElement n f).WellFormed := by
  have hlinks := sameLinks_modifyElement t n f
  have hhost := shadowHost_modifyElement t n f
  have hroot : (t.modifyElement n f).shadowRoot = t.shadowRoot := by
    funext m
    unfold shadowRoot
    rw [element?_modifyElement]
    split
    · cases t.element? m <;> simp [hf]
    · rfl
  refine ⟨h.toLinked.of_sameLinks hlinks, ?_, ?_, ?_⟩
  · rw [HangsFrom.congr hlinks.parent hhost]
    exact h.ranked
  · intro m d hd hstays
    rw [hlinks.parent]
    rw [data?_modifyElement] at hd
    split at hd
    · obtain ⟨old, hold, rfl⟩ := Option.map_eq_some_iff.mp hd
      refine h.roots hold ?_
      cases old <;> exact hstays
    · exact h.roots hd hstays
  · intro host r
    rw [hroot, hhost]
    exact h.shadow

/-! ### New nodes -/

/-- A created node is the last one stored, and has no links. -/
theorem get?_create (t : Tree) (d : NodeData) (m : NodeId) :
    (t.create d).1.get? m = if m = t.size then some { data := d } else t.get? m := by
  simp only [create, get?, Array.getElem?_push]
  rfl

theorem data?_create (t : Tree) (d : NodeData) (m : NodeId) :
    (t.create d).1.data? m = if m = t.size then some d else t.data? m := by
  unfold data?
  rw [get?_create]
  split <;> rfl

@[simp] theorem size_create (t : Tree) (d : NodeData) :
    (t.create d).1.size = t.size + 1 := by
  simp [create, size]

/-- A new node has no links, as a place without a node has none. -/
theorem sameLinks_create (t : Tree) (d : NodeData) : SameLinks t (t.create d).1 := by
  have hnone := get?_eq_none (Nat.le_refl t.size)
  refine ⟨?_, ?_, ?_, ?_⟩ <;> funext m
  · unfold parent
    rw [get?_create]
    split
    · next hm => simp [hm, hnone]
    · rfl
  · unfold children
    rw [get?_create]
    split
    · next hm => simp [hm, hnone]
    · rfl
  · unfold previous
    rw [get?_create]
    split
    · next hm => simp [hm, hnone]
    · rfl
  · unfold next
    rw [get?_create]
    split
    · next hm => simp [hm, hnone]
    · rfl

/-- Behind the last node nothing is stored. -/
theorem data?_size (t : Tree) : t.data? t.size = none := by
  simp [data?, get?_eq_none (Nat.le_refl t.size)]

/-- A fresh node is a tree of its own, and the rest is well formed as before. -/
theorem create_wellFormed {t : Tree} (h : t.WellFormed) {d : NodeData} (hd : d.IsFresh) :
    (t.create d).1.WellFormed := by
  have hlinks := sameLinks_create t d
  have hhost : (t.create d).1.shadowHost = t.shadowHost := by
    funext m
    unfold shadowHost
    rw [data?_create]
    by_cases hm : m = t.size
    · rw [if_pos hm, hm, data?_size]
      cases d <;> first | rfl | exact hd.elim
    · rw [if_neg hm]
  have hroot : (t.create d).1.shadowRoot = t.shadowRoot := by
    funext m
    unfold shadowRoot element?
    rw [data?_create]
    by_cases hm : m = t.size
    · rw [if_pos hm, hm, data?_size]
      cases d <;> first | rfl | exact hd
    · rw [if_neg hm]
  refine ⟨h.toLinked.of_sameLinks hlinks, ?_, ?_, ?_⟩
  · rw [HangsFrom.congr hlinks.parent hhost]
    exact h.ranked
  · intro m e he hstays
    rw [hlinks.parent]
    rw [data?_create] at he
    split at he
    · next hm =>
        rw [hm]
        simp [parent, get?_eq_none (Nat.le_refl t.size)]
    · exact h.roots he hstays
  · intro host r
    rw [hroot, hhost]
    exact h.shadow

/-- Creating a node keeps the elements there were. -/
theorem element?_create (t : Tree) (d : NodeData) {m : NodeId} (hm : m ≠ t.size) :
    (t.create d).1.element? m = t.element? m := by
  unfold element?
  rw [data?_create, if_neg hm]

theorem lt_size_of_element {t : Tree} {n : NodeId} {e : Element} (h : t.element? n = some e) :
    n < t.size := by
  by_contra hn
  simp [element?, data?, get?_eq_none (Nat.le_of_not_lt hn)] at h

theorem lt_size_of_shadowRoot {t : Tree} {n r : NodeId} (h : t.shadowRoot n = some r) :
    n < t.size := by
  obtain ⟨e, he, -⟩ := Option.bind_eq_some_iff.mp h
  exact lt_size_of_element he

/-- What another node hangs from is stored. -/
theorem WellFormed.hangsFrom_lt {t : Tree} (h : t.WellFormed) {n m : NodeId}
    (hnm : t.HangsFrom n m) : m < t.size := by
  rcases hnm with hp | hs
  · exact h.lt_size hp
  · exact lt_size_of_shadowRoot (h.shadow.mpr hs)

/-! ### The first shadow root of a host -/

section attachShadow

variable {t : Tree} {host : NodeId} {e : Element}

/-- A new shadow root that its host knows of. -/
private def giveShadow (t : Tree) (host : NodeId) (mode : ShadowMode) : Tree :=
  (t.create (.shadowRoot host mode)).1.modifyElement host
    fun e => { e with shadowRoot := some t.size }

/-- An element without a shadow root is given one. -/
private theorem attachShadow_eq (he : t.element? host = some e) (hnone : e.shadowRoot = none)
    (mode : ShadowMode) : (t.attachShadow host mode).1 = t.giveShadow host mode := by
  simp only [attachShadow, he, hnone]
  rfl

/-- A first shadow root keeps all links. -/
private theorem sameLinks_giveShadow (t : Tree) (host : NodeId) (mode : ShadowMode) :
    SameLinks t (t.giveShadow host mode) := by
  have hcreate := sameLinks_create t (.shadowRoot host mode)
  have hedit := sameLinks_modifyElement (t.create (.shadowRoot host mode)).1 host
    fun e => { e with shadowRoot := some t.size }
  exact ⟨hedit.parent.trans hcreate.parent, hedit.children.trans hcreate.children,
    hedit.previous.trans hcreate.previous, hedit.next.trans hcreate.next⟩

/-- The new shadow root knows its host, and every other node has the host it had. -/
private theorem shadowHost_giveShadow (t : Tree) (host : NodeId) (mode : ShadowMode)
    (m : NodeId) : (t.giveShadow host mode).shadowHost m =
      if m = t.size then some host else t.shadowHost m := by
  rw [giveShadow, shadowHost_modifyElement]
  unfold shadowHost
  rw [data?_create]
  by_cases hm : m = t.size
  · simp [hm]
  · simp [hm]

/-- The host knows its shadow root, and every other node has the one it had. -/
private theorem shadowRoot_giveShadow (he : t.element? host = some e) (mode : ShadowMode)
    (m : NodeId) : (t.giveShadow host mode).shadowRoot m =
      if m = host then some t.size else t.shadowRoot m := by
  have hne : host ≠ t.size := Nat.ne_of_lt (lt_size_of_element he)
  unfold shadowRoot giveShadow
  rw [element?_modifyElement]
  by_cases hm : host = m
  · subst hm
    simp [element?_create _ _ hne, he]
  · by_cases hsize : m = t.size
    · subst hsize
      simp [hm, Ne.symm hm, element?, data?_create, data?_size]
    · simp [hm, Ne.symm hm, element?_create _ _ hsize]

/-- Whether an older node stays a root does not change. -/
private theorem staysRoot_giveShadow (t : Tree) (host : NodeId) (mode : ShadowMode)
    {m : NodeId} {d : NodeData} (hm : m ≠ t.size)
    (hd : (t.giveShadow host mode).data? m = some d) :
    ∃ old, t.data? m = some old ∧ old.staysRoot = d.staysRoot := by
  rw [giveShadow, data?_modifyElement, data?_create, if_neg hm] at hd
  split at hd
  · obtain ⟨old, hold, rfl⟩ := Option.map_eq_some_iff.mp hd
    exact ⟨old, hold, by cases old <;> rfl⟩
  · exact ⟨d, hd, rfl⟩

/-- **A first shadow root** hangs from its host, with nothing below it. -/
private theorem giveShadow_wellFormed (h : t.WellFormed) (he : t.element? host = some e)
    (hnone : e.shadowRoot = none) (mode : ShadowMode) :
    (t.giveShadow host mode).WellFormed := by
  have hlinks := sameLinks_giveShadow t host mode
  have hhost := shadowHost_giveShadow t host mode
  have hroot := shadowRoot_giveShadow he mode
  have hsize : t.parent t.size = none := by
    simp [parent, get?_eq_none (Nat.le_refl t.size)]
  refine ⟨h.toLinked.of_sameLinks hlinks, ?_, ?_, ?_⟩
  · obtain ⟨rank, hrank⟩ := h.ranked
    refine ⟨Function.update rank t.size (rank host + 1), ?_⟩
    intro n m hnm
    unfold HangsFrom at hnm
    rw [hlinks.parent, hhost] at hnm
    by_cases hn : n = t.size
    · have hm : m = host := by
        rcases hnm with hp | hs
        · rw [hn, hsize] at hp
          cases hp
        · rw [if_pos hn] at hs
          exact (Option.some.inj hs).symm
      rw [hn, hm, Function.update_self,
        Function.update_of_ne (Nat.ne_of_lt (lt_size_of_element he))]
      exact Nat.lt_succ_self _
    · rw [if_neg hn] at hnm
      have hm : m ≠ t.size := Nat.ne_of_lt (h.hangsFrom_lt hnm)
      rw [Function.update_of_ne hn, Function.update_of_ne hm]
      exact hrank hnm
  · intro n d hd hstays
    rw [hlinks.parent]
    by_cases hn : n = t.size
    · rw [hn, hsize]
    · obtain ⟨old, hold, hsame⟩ := staysRoot_giveShadow t host mode hn hd
      exact h.roots hold (hsame.trans hstays)
  · intro a r
    rw [hroot, hhost]
    have hfresh : t.shadowHost t.size = none := by
      simp [shadowHost, data?_size]
    have hbare : t.shadowRoot host = none := by
      simp [shadowRoot, he, hnone]
    by_cases ha : a = host
    · subst ha
      by_cases hr : r = t.size
      · simp [hr]
      · simp [hr, Ne.symm hr, ← h.shadow, hbare]
    · by_cases hr : r = t.size
      · subst hr
        simp [ha, Ne.symm ha, h.shadow, hfresh]
      · simp [ha, hr, h.shadow]

/-- A shadow root hangs from its host by no link. -/
theorem sameLinks_attachShadow (t : Tree) (host : NodeId) (mode : ShadowMode) :
    SameLinks t (t.attachShadow host mode).1 := by
  have hsame : SameLinks t t := ⟨rfl, rfl, rfl, rfl⟩
  cases he : t.element? host with
  | none => simpa [attachShadow, he] using hsame
  | some e =>
      cases hr : e.shadowRoot with
      | some r => simpa [attachShadow, he, hr] using hsame
      | none =>
          rw [attachShadow_eq he hr mode]
          exact sameLinks_giveShadow t host mode

/-- Attaching a shadow root keeps trees well formed, the second time too. -/
theorem attachShadow_wellFormed (h : t.WellFormed) (host : NodeId) (mode : ShadowMode) :
    (t.attachShadow host mode).1.WellFormed := by
  cases he : t.element? host with
  | none => simpa [attachShadow, he] using h
  | some e =>
      cases hr : e.shadowRoot with
      | some r => simpa [attachShadow, he, hr] using h
      | none =>
          rw [attachShadow_eq he hr mode]
          exact giveShadow_wellFormed h he hr mode

end attachShadow

/-! ### Moving nodes -/

/-- Hosts and shadow roots are read from what the nodes hold. -/
theorem shadowHost_congr {t t' : Tree} (hdata : t'.data? = t.data?) :
    t'.shadowHost = t.shadowHost ∧ t'.shadowRoot = t.shadowRoot := by
  constructor <;> funext m <;> simp [shadowHost, shadowRoot, element?, hdata]

/-- Removing a child keeps trees well formed, since nothing hangs from a new node. -/
theorem removeChild_wellFormed {t : Tree} (h : t.WellFormed) (p c : NodeId) :
    (t.removeChild p c).WellFormed := by
  by_cases hc : c ∈ t.children p
  · have hdata := data?_removeChild t p c
    have hparent := parent_removeChild h.toLinked hc
    have hkept : ∀ {n m}, (t.removeChild p c).parent n = some m → t.parent n = some m := by
      intro n m hm
      rw [hparent] at hm
      split at hm
      · cases hm
      · exact hm
    refine ⟨removeChild_linked h.toLinked p c, ?_, ?_, ?_⟩
    · obtain ⟨rank, hrank⟩ := h.ranked
      refine ⟨rank, ?_⟩
      intro n m hnm
      refine hrank ?_
      rcases hnm with hp | hs
      · exact Or.inl (hkept hp)
      · exact Or.inr (by rwa [(shadowHost_congr hdata).1] at hs)
    · intro n d hd hstays
      rw [hdata] at hd
      rw [hparent, h.roots hd hstays]
      split <;> rfl
    · rw [(shadowHost_congr hdata).1, (shadowHost_congr hdata).2]
      exact h.shadow
  · rw [removeChild_of_not_mem hc]
    exact h

/-- **A rank survives a move.**  Where only `c` hangs anew, from `p`, and `p` does not hang from `c`
by way of others, everything at or below `c` moves up in rank by more than the rank of `p`. -/
theorem exists_rank_of_moved {R R' : NodeId → NodeId → Prop} {p c : NodeId}
    (hranked : ∃ rank : NodeId → Nat, ∀ {n m}, R n m → rank m < rank n)
    (hmoved : ∀ {n m}, R' n m → n = c ∧ m = p ∨ R n m)
    (hout : ¬ Relation.ReflTransGen R p c) :
    ∃ rank : NodeId → Nat, ∀ {n m}, R' n m → rank m < rank n := by
  classical
  obtain ⟨rank, hrank⟩ := hranked
  let within (n : NodeId) : Prop := Relation.ReflTransGen R n c
  refine ⟨fun n => if within n then rank n + rank p + 1 else rank n, ?_⟩
  intro n m hnm
  rcases hmoved hnm with ⟨rfl, rfl⟩ | hold
  · have hself : within n := Relation.ReflTransGen.refl
    have hnot : ¬ within m := hout
    simp only [hnot, hself, if_true, if_false]
    omega
  · have hlt := hrank hold
    have hup : within m → within n := fun hm => hm.head hold
    dsimp only
    split <;> split
    · omega
    · next hm hn => exact absurd (hup hm) hn
    · omega
    · omega

/-- **Inserting keeps trees trees** when the child may have a parent and does not contain its new
one. -/
theorem insertBefore_wellFormed {t : Tree} (h : t.WellFormed) {p c : NodeId}
    (hp : p < t.size) (hc : c < t.size) (reference : Option NodeId)
    (hchild : ∀ d, t.data? c = some d → d.staysRoot = false) (hout : ¬ t.Within p c) :
    (t.insertBefore p c reference).WellFormed := by
  have hdata := data?_insertBefore t p c reference
  have hparent := parent_insertBefore h.toLinked p hc reference
  refine ⟨insertBefore_linked h.toLinked hp hc reference, ?_, ?_, ?_⟩
  · refine exists_rank_of_moved h.ranked (fun {n m} hnm => ?_) hout
    rcases hnm with hnm | hnm
    · rw [hparent] at hnm
      split at hnm
      · next hn => exact Or.inl ⟨hn, (Option.some.inj hnm).symm⟩
      · exact Or.inr (Or.inl hnm)
    · rw [(shadowHost_congr hdata).1] at hnm
      exact Or.inr (Or.inr hnm)
  · intro n d hd hstays
    rw [hdata] at hd
    have hne : n ≠ c := by
      intro hn
      rw [hchild d (hn ▸ hd)] at hstays
      cases hstays
    rw [hparent, if_neg hne]
    exact h.roots hd hstays
  · rw [(shadowHost_congr hdata).1, (shadowHost_congr hdata).2]
    exact h.shadow

/-! ### Whole runs -/

/-- A tree of a document only is well formed. -/
theorem empty_wellFormed (content : ContentType) : (Tree.empty content).WellFormed := by
  have hparent : ∀ n, (Tree.empty content).parent n = none := by
    intro n
    cases n <;> rfl
  have hchildren : ∀ n, (Tree.empty content).children n = [] := by
    intro n
    cases n <;> rfl
  have hhost : ∀ n, (Tree.empty content).shadowHost n = none := by
    intro n
    cases n <;> rfl
  have hroot : ∀ n, (Tree.empty content).shadowRoot n = none := by
    intro n
    cases n <;> rfl
  refine ⟨⟨?_, ?_, ?_, ?_⟩, ⟨fun _ => 0, ?_⟩, ?_, ?_⟩
  · intro p c
    simp [hparent, hchildren]
  · intro p
    simp [hchildren]
  · intro p c pre post hsplit
    simp [hchildren] at hsplit
  · intro c _
    cases c <;> exact ⟨rfl, rfl⟩
  · intro n m hnm
    simp [HangsFrom, hparent, hhost] at hnm
  · intro n _ _ _
    exact hparent n
  · intro host r
    simp [hhost, hroot]

/-- **A proper tree is well formed.** -/
theorem Proper.wellFormed {t : Tree} (h : t.Proper) : t.WellFormed := by
  induction h with
  | empty content => exact empty_wellFormed content
  | @step t c _ range keeps ih =>
      cases c with
      | create data => exact create_wellFormed ih range
      | insert parent child reference =>
          exact insertBefore_wellFormed ih range.1 range.2 reference keeps.1 keeps.2
      | remove parent child => exact removeChild_wellFormed ih parent child
      | attachShadow host mode => exact attachShadow_wellFormed ih host mode
      | setAttribute n name value => exact modifyElement_wellFormed ih n fun _ => rfl
      | setAttributeIn n space name value => exact modifyElement_wellFormed ih n fun _ => rfl
      | removeAttribute n name => exact modifyElement_wellFormed ih n fun _ => rfl
      | setLive n f => exact modifyElement_wellFormed ih n fun _ => rfl
      | setDocument f =>
          exact ⟨⟨ih.mem_children, ih.nodup, ih.links, ih.alone⟩, ih.ranked, ih.roots, ih.shadow⟩

end Selectors.Tree

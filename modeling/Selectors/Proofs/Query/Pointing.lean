import Selectors.Proofs.Control.Names
import Selectors.Proofs.Query.States
import Selectors.Proofs.Tree.Acyclic
import Selectors.Proofs.Tree.Slots

/-!
# Around the element that is pointed at

What the user points at lies in all that is shown around it: the slot that takes a child of a host,
what the slot stands in, and so on up to the host.  Calls follow parents and hosts only.  So they
say of no element that it is pointed at unless it is shown around what the user points at, but they
miss the slots on the way and what stands between a slot and its shadow root.

* `Tree.flatParent` is the node that a node is shown in, `Tree.FlatWithin` says that one is shown in
  another.
* `Tree.WellFormed.flatWithin_hostOrSelf` leads through a shadow tree: what a slot takes is shown in
  the host.
* `Tree.WellFormed.within_iff_flatWithin` compares the two ways up: they differ in the shadow trees
  that are entered through slots.
* `Tree.pointedAt_iff_flatWithin` is the result.
-/

namespace Selectors.Tree

variable {t : Tree} {n m p s : NodeId}

/-! ### The two ways up -/

/-- The host in place of a shadow root; any other node itself. -/
def hostOrSelf (t : Tree) (n : NodeId) : NodeId :=
  (t.shadowHost n).getD n

/-- What a node is shown in: the slot that takes it, or else the parent, or the host where the
parent is a shadow root. -/
def flatParent (t : Tree) (n : NodeId) : Option NodeId :=
  (t.findSlot n).or ((t.parent n).map t.hostOrSelf)

/-- `n` is `top` or is shown inside of it. -/
def FlatWithin (t : Tree) (n top : NodeId) : Prop :=
  Relation.ReflTransGen (fun a b => t.flatParent a = some b) n top

theorem hostOrSelf_of_host {r : NodeId} (hr : t.shadowHost r = some n) : t.hostOrSelf r = n := by
  rw [hostOrSelf, hr]
  rfl

theorem hostOrSelf_of_not_root (hn : t.shadowHost n = none) : t.hostOrSelf n = n := by
  rw [hostOrSelf, hn]
  rfl

/-- A node with a parent is no shadow root. -/
theorem WellFormed.shadowHost_of_parent (h : t.WellFormed) (hp : t.parent n = some p) :
    t.shadowHost n = none := by
  unfold shadowHost
  split
  · next hdata =>
      rw [h.roots hdata rfl] at hp
      cases hp
  · rfl

theorem shadowHost_of_element {e : Element} (he : t.element? n = some e) :
    t.shadowHost n = none := by
  unfold element? at he
  unfold shadowHost
  split
  · next hdata => simp [hdata] at he
  · rfl

theorem shadowHost_of_isElement (hn : t.view.isElement n = true) : t.shadowHost n = none := by
  obtain ⟨e, he⟩ := exists_element hn
  exact shadowHost_of_element he

/-- A host is an element, and no shadow root. -/
theorem WellFormed.shadowHost_of_host (h : t.WellFormed) {r : NodeId}
    (hr : t.shadowHost r = some n) : t.shadowHost n = none := by
  obtain ⟨e, he, -⟩ := Option.bind_eq_some_iff.mp (h.shadow.mpr hr)
  exact shadowHost_of_element he

/-- A node hangs from one other at most. -/
theorem WellFormed.hangsFrom_unique (h : t.WellFormed) : Relator.RightUnique t.HangsFrom := by
  intro n a b ha hb
  rcases ha with ha | ha <;> rcases hb with hb | hb
  · exact Option.some.inj (ha.symm.trans hb)
  · rw [h.shadowHost_of_parent ha] at hb
    cases hb
  · rw [h.shadowHost_of_parent hb] at ha
    cases ha
  · exact Option.some.inj (ha.symm.trans hb)

/-- All that a node hangs from is what the next one up hangs from. -/
theorem WellFormed.within_of_hangsFrom (h : t.WellFormed) {top : NodeId} (hn : t.HangsFrom n m)
    (htop : t.Within n top) (hne : n ≠ top) : t.Within m top := by
  rcases Relation.ReflTransGen.cases_head htop with heq | ⟨k, hk, hrest⟩
  · exact absurd heq hne
  · rwa [h.hangsFrom_unique hn hk]

/-- What stands below a node hangs from it. -/
theorem transGen_hangsFrom_of_below (hn : t.Below n m) : Relation.TransGen t.HangsFrom n m :=
  Relation.TransGen.mono (fun _ _ hp => Or.inl hp) n m hn

/-- A node is within the root of its tree. -/
theorem WellFormed.within_rootOf (h : t.WellFormed) (n : NodeId) : t.Within n (t.rootOf n) := by
  rcases h.eq_rootOf_or_below n with heq | hbelow
  · rw [← heq]
    exact .refl
  · exact (transGen_hangsFrom_of_below hbelow).to_reflTransGen

/-- A shadow root has no parent. -/
theorem WellFormed.parent_of_shadowHost (h : t.WellFormed) (hn : t.shadowHost n = some m) :
    t.parent n = none := by
  refine Option.eq_none_iff_forall_ne_some.mpr fun p hp => ?_
  rw [h.shadowHost_of_parent hp] at hn
  cases hn

/-- Up to the root of a tree the way leads through the root of the own tree. -/
theorem WellFormed.within_of_rootOf (h : t.WellFormed) {r : NodeId} (hn : t.Within n r)
    (hr : t.parent r = none) : t.Within (t.rootOf n) r := by
  induction hn using Relation.ReflTransGen.head_induction_on with
  | refl =>
      rw [h.rootOf_of_root hr]
      exact .refl
  | @head a b hstep hrest ih =>
      rcases hstep with hparent | hhost
      · rwa [h.rootOf_of_parent hparent]
      · rw [h.rootOf_of_root (h.parent_of_shadowHost hhost)]
        exact .head (Or.inr hhost) hrest

/-- Nothing that a node hangs from hangs in it. -/
theorem WellFormed.not_within_of_hangsFrom (h : t.WellFormed) (hn : t.HangsFrom n m) :
    ¬ t.Within m n := by
  obtain ⟨rank, hrank⟩ := h.ranked
  intro hm
  have hself : Relation.TransGen t.HangsFrom n n := .head' hn hm
  exact Nat.lt_irrefl _ (rank_lt_of_transGen hself hrank)

theorem lt_size_of_shadowHost (hn : t.shadowHost n = some m) : n < t.size := by
  by_contra hout
  simp [shadowHost, data?, get?_eq_none (Nat.le_of_not_lt hout)] at hn

/-- What hangs from a node, directly or not, is lower. -/
theorem WellFormed.exists_height (h : t.WellFormed) : ∃ height : NodeId → Nat,
    ∀ {n m}, Relation.TransGen t.HangsFrom n m → height n < height m := by
  obtain ⟨rank, hrank⟩ := h.ranked
  have hlt : ∀ {n m}, Function.swap t.HangsFrom n m → m < t.size := by
    intro n m hm
    rcases hm with hp | hs
    · exact lt_size_of_parent hp
    · exact lt_size_of_shadowHost hs
  have hacyclic : ∀ n, ¬ Relation.TransGen (Function.swap t.HangsFrom) n n := by
    intro n hn
    exact Nat.lt_irrefl _ (rank_lt_of_transGen (Relation.transGen_swap.mp hn) hrank)
  obtain ⟨height, -, hheight⟩ := exists_rank_of_acyclic hlt hacyclic
  exact ⟨height, fun hnm => rank_lt_of_transGen (Relation.transGen_swap.mpr hnm) hheight⟩

/-! ### Through a shadow tree -/

/-- **A child is shown in its parent**, and where the parent is a shadow root in the host.  If a
slot takes the child it is shown in the slot, and the slot in the host, because this is so for all
that stands in the shadow tree. -/
theorem WellFormed.flatWithin_hostOrSelf (h : t.WellFormed) (hn : t.parent n = some p) :
    t.FlatWithin n (t.hostOrSelf p) := by
  obtain ⟨height, hheight⟩ := h.exists_height
  induction hr : height p using Nat.strongRecOn generalizing n p with
  | ind r ih =>
      cases hslot : t.findSlot n with
      | none =>
          refine .single ?_
          rw [flatParent, hslot, hn]
          rfl
      | some s =>
          obtain ⟨host, hparent, hhost, hslotElement⟩ := h.findSlot_eq_some hslot
          obtain rfl : p = host := Option.some.inj (hn.symm.trans hparent)
          have hthrough : ∀ x, t.Below x (t.rootOf s) → t.FlatWithin x p := by
            intro x hx
            induction hx using Relation.TransGen.head_induction_on with
            | single hx =>
                have hlow := hheight (.single (Or.inr hhost))
                have hshown := ih _ (hr ▸ hlow) hx rfl
                rwa [hostOrSelf_of_host hhost] at hshown
            | @head x y hx hy ihy =>
                have hlow := hheight ((transGen_hangsFrom_of_below hy).tail (Or.inr hhost))
                have hshown := ih _ (hr ▸ hlow) hx rfl
                obtain ⟨z, hz, -⟩ := Relation.TransGen.head'_iff.mp hy
                rw [hostOrSelf_of_not_root (h.shadowHost_of_parent hz)] at hshown
                exact hshown.trans ihy
          have hbelow : t.Below s (t.rootOf s) := by
            refine (h.eq_rootOf_or_below s).resolve_left fun heq => ?_
            obtain ⟨e, he, -⟩ := (Option.any_eq_true _ _).mp hslotElement
            rw [← heq, shadowHost_of_element he] at hhost
            cases hhost
          rw [hostOrSelf_of_not_root (h.shadowHost_of_host hhost)]
          refine .head ?_ (hthrough s hbelow)
          rw [flatParent, hslot]
          rfl

/-- **What hangs from a node is shown in it.** -/
theorem WellFormed.flatWithin_of_within (h : t.WellFormed) (hn : t.Within n m)
    (hm : t.shadowHost m = none) : t.FlatWithin (t.hostOrSelf n) m := by
  induction hn using Relation.ReflTransGen.head_induction_on with
  | refl =>
      rw [hostOrSelf_of_not_root hm]
      exact .refl
  | @head n y hstep _ ih =>
      rcases hstep with hparent | hhost
      · rw [hostOrSelf_of_not_root (h.shadowHost_of_parent hparent)]
        exact (h.flatWithin_hostOrSelf hparent).trans ih
      · rw [hostOrSelf_of_host hhost]
        rwa [hostOrSelf_of_not_root (h.shadowHost_of_host hhost)] at ih

/-! ### What is entered through slots -/

/-- `n` stands in a shadow tree whose host has a child around `m`. -/
def BesideChild (t : Tree) (m n : NodeId) : Prop :=
  ∃ c host r, t.Within m c ∧ t.parent c = some host ∧ t.shadowHost r = some host ∧ t.Within n r

/-- A shadow root is within its host, every other node within itself. -/
theorem within_hostOrSelf (t : Tree) (n : NodeId) : t.Within n (t.hostOrSelf n) := by
  cases hhost : t.shadowHost n with
  | none =>
      rw [hostOrSelf_of_not_root hhost]
      exact .refl
  | some m =>
      rw [hostOrSelf_of_host hhost]
      exact .single (Or.inr hhost)

/-- What a node is shown in is its slot, or its parent, or the host of that. -/
theorem WellFormed.exists_parent_of_flatParent (h : t.WellFormed)
    (hn : t.flatParent n = some m) :
    ∃ p, t.parent n = some p ∧ (t.findSlot n = some m ∨ t.hostOrSelf p = m) := by
  rcases Option.or_eq_some_iff.mp hn with hslot | ⟨-, hparent⟩
  · obtain ⟨host, hparent, -, -⟩ := h.findSlot_eq_some hslot
    exact ⟨host, hparent, Or.inl hslot⟩
  · obtain ⟨p, hp, hm⟩ := Option.map_eq_some_iff.mp hparent
    exact ⟨p, hp, Or.inr hm⟩

/-- **In the flat tree a node is shown in what it hangs from and in parts of shadow trees beside
it.**  The parent of such a child stands below the same shadow root, or is that shadow root. -/
theorem WellFormed.within_or_besideChild (h : t.WellFormed) (hn : t.FlatWithin m n) :
    t.Within m n ∨ t.BesideChild m n := by
  induction hn with
  | refl => exact Or.inl .refl
  | @tail a b _ hstep ih =>
      obtain ⟨q, hq, hb⟩ := h.exists_parent_of_flatParent hstep
      rcases ih with hin | ⟨c, host, r, hmc, hc, hr, har⟩
      · rcases hb with hslot | rfl
        · obtain ⟨host, hparent, hhost, -⟩ := h.findSlot_eq_some hslot
          exact Or.inr ⟨a, host, t.rootOf b, hin, hparent, hhost, h.within_rootOf b⟩
        · exact Or.inl ((hin.tail (Or.inl hq)).trans (within_hostOrSelf t q))
      · have hqr : t.Within q r := by
          refine h.within_of_hangsFrom (Or.inl hq) har ?_
          rintro rfl
          rw [h.shadowHost_of_parent hq] at hr
          cases hr
        rcases hb with hslot | rfl
        · obtain ⟨host', hparent, hhost, -⟩ := h.findSlot_eq_some hslot
          obtain rfl : q = host' := Option.some.inj (hq.symm.trans hparent)
          exact Or.inr ⟨c, host, r, hmc, hc, hr,
            ((h.within_rootOf b).tail (Or.inr hhost)).trans hqr⟩
        · by_cases hqeq : q = r
          · rw [hqeq, hostOrSelf_of_host hr]
            exact Or.inl (hmc.tail (Or.inl hc))
          · refine Or.inr ⟨c, host, r, hmc, hc, hr, ?_⟩
            cases hhost : t.shadowHost q with
            | none => rwa [hostOrSelf_of_not_root hhost]
            | some y =>
                rw [hostOrSelf_of_host hhost]
                exact h.within_of_hangsFrom (Or.inr hhost) hqr hqeq

/-- A shadow tree beside a node is none that the node stands in. -/
theorem WellFormed.not_within_rootOf_of_besideChild (h : t.WellFormed) (hn : t.BesideChild m n) :
    ¬ t.Within m (t.rootOf n) := by
  obtain ⟨c, host, r, hmc, hc, hr, hnr⟩ := hn
  intro hroot
  have hne : c ≠ r := by
    rintro rfl
    rw [h.shadowHost_of_parent hc] at hr
    cases hr
  have hmr : t.Within m r := hroot.trans (h.within_of_rootOf hnr (h.parent_of_shadowHost hr))
  rcases Relation.ReflTransGen.total_of_right_unique h.hangsFrom_unique hmc hmr with hcr | hrc
  · exact h.not_within_of_hangsFrom (Or.inr hr) (h.within_of_hangsFrom (Or.inl hc) hcr hne)
  · exact h.not_within_of_hangsFrom (Or.inl hc) (h.within_of_hangsFrom (Or.inr hr) hrc hne.symm)

/-- **The two ways up compared.**  A node hangs from an element if it is shown in it and stands in
its tree, or in a shadow tree inside of that. -/
theorem WellFormed.within_iff_flatWithin (h : t.WellFormed) (hm : t.shadowHost m = none)
    (hn : t.shadowHost n = none) :
    t.Within m n ↔ t.FlatWithin m n ∧ t.Within m (t.rootOf n) := by
  constructor
  · intro hwithin
    have hflat := h.flatWithin_of_within hwithin hn
    rw [hostOrSelf_of_not_root hm] at hflat
    exact ⟨hflat, hwithin.trans (h.within_rootOf n)⟩
  · rintro ⟨hflat, hroot⟩
    refine (h.within_or_besideChild hflat).resolve_right fun hbeside => ?_
    exact h.not_within_rootOf_of_besideChild hbeside hroot

/-! ### What calls say -/

/-- The shadow roots are the nodes that have a host. -/
theorem kind_eq_shadowRoot_iff : t.kind n = .shadowRoot ↔ t.shadowHost n ≠ none := by
  unfold kind shadowHost
  cases t.data? n with
  | none => simp
  | some d => cases d <;> simp

/-- From a child the walk goes to its parent, and from a shadow root on to the host. -/
theorem hostingParent_of_parent (hp : t.parent n = some p) :
    t.view.hostingParent n = some (t.hostOrSelf p) := by
  have hview : t.view.hostingParent n =
      if t.kind p = NodeKind.shadowRoot then t.shadowHost p else some p := by
    have hparent : t.view.parent n = some p := hp
    rw [TreeView.hostingParent, hparent]
    rfl
  rw [hview, hostOrSelf]
  cases hhost : t.shadowHost p with
  | none => exact if_neg (mt kind_eq_shadowRoot_iff.mp (not_not_intro hhost))
  | some m => exact if_pos (kind_eq_shadowRoot_iff.mpr (by simp [hhost]))

/-- From a shadow root the walk goes to its host. -/
theorem WellFormed.hostingParent_of_host (h : t.WellFormed) (hm : t.shadowHost n = some m) :
    t.view.hostingParent n = some m := by
  have hparent : t.view.parent n = none := h.parent_of_shadowHost hm
  rw [TreeView.hostingParent, hparent]
  exact (if_pos (kind_eq_shadowRoot_iff.mpr (by simp [hm]))).trans hm

/-- The nodes around an element are those that it hangs from, shadow roots left out.  From a shadow
root the walk goes on at the host. -/
theorem WellFormed.mem_hostingAncestors_iff_within (h : t.WellFormed)
    (hn : t.shadowHost n = none) : n ∈ t.view.hostingAncestors m ↔ t.Within m n := by
  rw [h.mem_hostingAncestors]
  constructor
  · clear hn
    intro hsteps
    induction hsteps with
    | refl => exact .refl
    | tail _ hstep ih => exact ih.trans (hangsFrom_of_hostingParent hstep).to_reflTransGen
  · intro hwithin
    induction hwithin using Relation.ReflTransGen.head_induction_on with
    | refl => exact .refl
    | @head a b hstep hrest ih =>
        rcases hstep with hparent | hhost
        · refine .head (hostingParent_of_parent hparent) ?_
          cases hb : t.shadowHost b with
          | none => rwa [hostOrSelf_of_not_root hb]
          | some c =>
              rw [hostOrSelf_of_host hb]
              rcases Relation.ReflTransGen.cases_head ih with rfl | ⟨k, hk, hk'⟩
              · rw [hn] at hb
                cases hb
              · rwa [Option.some.inj ((h.hostingParent_of_host hb).symm.trans hk)]
        · exact .head (h.hostingParent_of_host hhost) ih

/-- **What calls say of the elements around `target`**, where `verdict` are their answers. -/
structure MarksAround (t : Tree) (verdict : NodeId → Except SelectorError Bool)
    (target : NodeId) : Prop where
  /-- Calls answer, and say yes of what the target hangs from. -/
  hanging : ∀ n, t.view.isElement n = true → ∃ b, verdict n = .ok b ∧ (b = true ↔ t.Within target n)
  /-- That is what the target is shown in, but for shadow trees that it does not stand in. -/
  shown : ∀ n, t.view.isElement n = true →
    (verdict n = .ok true ↔ t.FlatWithin target n ∧ t.Within target (t.rootOf n))

/-- **A verdict about what lies around the target** is the one about parents and hosts. -/
theorem WellFormed.marksAround (h : t.WellFormed) {verdict : NodeId → Except SelectorError Bool}
    {target : NodeId} (htarget : t.view.isElement target = true)
    (hverdict : ∀ n, t.view.isElement n = true →
      verdict n = .ok (t.view.isAround n (some target))) : t.MarksAround verdict target := by
  have hhanging : ∀ n, t.view.isElement n = true →
      (t.view.isAround n (some target) = true ↔ t.Within target n) := by
    intro n hn
    rw [← h.mem_hostingAncestors_iff_within (shadowHost_of_isElement hn)]
    exact List.contains_iff_mem
  refine ⟨fun n hn => ⟨_, hverdict n hn, hhanging n hn⟩, fun n hn => ?_⟩
  rw [hverdict n hn, Except.ok.injEq, hhanging n hn]
  exact h.within_iff_flatWithin (shadowHost_of_isElement htarget) (shadowHost_of_isElement hn)

/-- **Calls and the element that is pointed at, or pressed.**  They say yes of an element if it is
the one or is shown around it, and stands in a tree that the one stands in. -/
theorem pointedAt_iff_flatWithin (ht : t.Proper) {e : Engine} (he : e.Reached)
    (settings : Settings) {target : NodeId} (htarget : t.view.isElement target = true) :
    (t.document.hovered = some target →
        t.MarksAround (e.verdict t.view settings ":hover") target) ∧
      (t.document.active = some target →
        t.MarksAround (e.verdict t.view settings ":active") target) := by
  constructor
  · intro hhovered
    refine ht.wellFormed.marksAround htarget fun n hn => ?_
    rw [← hhovered]
    exact he.verdict_state settings .hover hn
  · intro hactive
    refine ht.wellFormed.marksAround htarget fun n hn => ?_
    rw [← hactive]
    exact he.verdict_state settings .active hn

/-- The slotted paragraph is pointed at and pressed. -/
def slottedAndPointedAt : List Change :=
  slottedBox ++ [.setDocument fun d => { d with hovered := some 2, active := some 2 }]

/-- The slot that the paragraph is shown in is left out. -/
theorem pointedAt_iff_flatWithin_slotted :
    let t := slottedAndPointedAt.foldl apply (Tree.empty .html)
    let verdict := Engine.verdict {} t.view {}
    t.Proper ∧ t.view.isElement 2 = true ∧ t.document.hovered = some 2 ∧
      t.document.active = some 2 ∧ t.flatParent 2 = some 5 ∧ t.flatParent 5 = some 1 ∧
      verdict ":hover" 2 = .ok true ∧ verdict ":hover" 5 = .ok false ∧
      verdict ":hover" 1 = .ok true ∧ t.MarksAround (verdict ":hover") 2 ∧
      t.MarksAround (verdict ":active") 2 := by
  intro t verdict
  have hempty := Proper.empty .html
  have ht : t.Proper := hempty.foldl (hempty.admits_of_insertsBare (by decide +kernel))
  have hn : t.view.isElement 2 = true := by
    decide +kernel
  obtain ⟨hhover, hactive⟩ := pointedAt_iff_flatWithin ht .new {} hn
  exact ⟨ht, hn, by decide +kernel, by decide +kernel, by decide +kernel, by decide +kernel,
    by decide +kernel, by decide +kernel, by decide +kernel, hhover (by decide +kernel),
    hactive (by decide +kernel)⟩

end Selectors.Tree

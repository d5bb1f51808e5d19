import Selectors.Direction
import Selectors.Proofs.Control.Names
import Selectors.Proofs.Tree.Acyclic
import Selectors.Proofs.Tree.Slots

/-!
# Searching content for a direction

What a node adds to the direction of the element it stands in is given by equations: a text adds its
first strong character, an element what it shows adds, and elements with a direction of their own
add nothing.  The equations refer from a node to what it shows, its children and what is assigned to
it.  In a well-formed tree that never leads back, because what is assigned to a slot stands in the
tree of the host, outside of the slot's own; so the equations have one solution, and the search with
a stack, which starts further searches at slots, finds it.

* `Tree.Shows` is the relation between a node and what it shows, and
  `Tree.WellFormed.exists_rank_shows` its rank.
* `TreeView.addsBy` is the right side of the equations, `TreeView.adds` their solution.
* `Tree.searchStack_eq` is about one search, `Tree.contentDirection_eq` about all that it starts.
* `Tree.WellFormed.directionWithin_eq` says that the walk outwards ends as well.
-/

namespace Selectors

/-! ### Searches of lists -/

section lists

variable {α β : Type} {as : List α}

theorem findSome?_congr {f g : α → Option β} (h : ∀ a ∈ as, f a = g a) :
    as.findSome? f = as.findSome? g := by
  rw [← List.head?_filterMap, List.filterMap_congr h, List.head?_filterMap]

/-- A search whose questions are all answered is answered. -/
theorem findSomeM?_eq_some {f : α → Option (Option β)} {g : α → Option β}
    (h : ∀ a ∈ as, f a = some (g a)) : as.findSomeM? f = some (as.findSome? g) := by
  induction as with
  | nil => rfl
  | cons a as ih =>
      obtain ⟨ha, has⟩ := List.forall_mem_cons.mp h
      rw [List.findSomeM?_cons, ha, ih has, List.findSome?_cons]
      cases g a <;> rfl

end lists

/-! ### Equations -/

namespace TreeView

variable (t : TreeView) (strong : Char → Option TextDirection)

/-- What a node adds to the direction of the slot it is assigned to, where `adds` is what nodes add
to the direction of the element they stand in. -/
def slottedBy (adds : NodeId → Option TextDirection) (n : NodeId) : Option TextDirection :=
  match t.kind n with
  | .text => t.textDirection? strong n
  | .element => if t.isolatesText n then none else (t.children n).findSome? adds
  | _ => none

/-- What an element shows decides its direction: what is assigned to it if it is a slot of a shadow
tree, and its children otherwise. -/
def shownBy (adds : NodeId → Option TextDirection) (n : NodeId) : Option TextDirection :=
  if t.showsAssigned n then (t.assignedNodes n).findSome? (t.slottedBy strong adds)
  else (t.children n).findSome? adds

/-- What a node adds to the direction of the element it stands in, in terms of what other nodes add.
-/
def addsBy (adds : NodeId → Option TextDirection) (n : NodeId) : Option TextDirection :=
  match t.kind n with
  | .text => t.textDirection? strong n
  | .element => if t.isolatesText n then none else t.shownBy strong adds n
  | _ => none

/-- What nodes add, from the equations for them, applied once more than there are nodes. -/
def adds : NodeId → Option TextDirection :=
  (t.addsBy strong)^[t.size + 1] fun _ => none

variable {t strong} {adds : NodeId → Option TextDirection} {n : NodeId}

/-- A text adds its first strong character. -/
theorem addsBy_text (hkind : t.kind n = .text) :
    t.addsBy strong adds n = t.textDirection? strong n := by
  rw [addsBy, hkind]

/-- An element with a direction of its own adds nothing. -/
theorem addsBy_isolated (hkind : t.kind n = .element) (hisolates : t.isolatesText n = true) :
    t.addsBy strong adds n = none := by
  simp only [addsBy, hkind, if_pos hisolates]

/-- Any other element adds what it shows. -/
theorem addsBy_element (hkind : t.kind n = .element) (hjoins : t.isolatesText n = false) :
    t.addsBy strong adds n = t.shownBy strong adds n := by
  simp only [addsBy, hkind, hjoins, if_neg Bool.false_ne_true]

/-- A node that is neither adds nothing. -/
theorem addsBy_other (htext : t.kind n ≠ .text) (helement : t.kind n ≠ .element) :
    t.addsBy strong adds n = none := by
  unfold addsBy
  cases hkind : t.kind n with
  | text => exact absurd hkind htext
  | element => exact absurd hkind helement
  | _ => rfl

/-- Only slots show what is assigned to them. -/
theorem shownBy_of_not_slot (hslot : t.isHtml n "slot" = false) :
    t.shownBy strong adds n = (t.children n).findSome? adds := by
  rw [shownBy, showsAssigned, hslot, Bool.false_and, if_neg Bool.false_ne_true]

/-- Slots hold no value. -/
theorem directsByValue_of_slot (hslot : t.isHtml n "slot" = true) :
    t.directsByValue n = false := by
  rw [directsByValue, isInput, isHtml_eq_false hslot (by decide),
    isHtml_eq_false hslot (by decide)]
  rfl

end TreeView

namespace Tree

variable {t : Tree} {strong : Char → Option TextDirection} {rank : NodeId → Nat}

/-! ### What a node shows -/

/-- A node shows its children and what is assigned to it. -/
def Shows (t : Tree) (n m : NodeId) : Prop :=
  m ∈ t.children n ∨ m ∈ t.assignedNodes n

/-- What is shown by a node is stored. -/
theorem WellFormed.lt_size_of_shows (h : t.WellFormed) {n m : NodeId} (hnm : t.Shows n m) :
    m < t.size := by
  rcases hnm with hchild | hassigned
  · exact lt_size_of_parent (h.mem_children.mp hchild)
  · obtain ⟨host, hparent, -⟩ := h.findSlot_eq_some (h.mem_assignedNodes.mp hassigned)
    exact lt_size_of_parent hparent

/-- **What is shown never leads back.**  A child stands deeper in the same tree, and what is
assigned to a slot stands in a tree that the slot's own hangs from. -/
theorem WellFormed.exists_rank_shows (h : t.WellFormed) :
    ∃ rank : NodeId → Nat, (∀ n, rank n ≤ t.size) ∧ ∀ {n m}, t.Shows n m → rank m < rank n := by
  obtain ⟨height, hheight⟩ := h.ranked
  have hroot : ∀ n, height (t.rootOf n) ≤ height n := by
    intro n
    rcases h.eq_rootOf_or_below n with heq | hbelow
    · exact (congrArg height heq).ge
    · exact (rank_lt_of_transGen hbelow fun hp => hheight (Or.inl hp)).le
  let measure (n : NodeId) := height (t.rootOf n) * (t.size + 1) + (t.size - t.depth n)
  have hmeasure : ∀ {n m}, t.Shows n m → measure m < measure n := by
    intro n m hnm
    have hle := h.depth_le m
    rcases hnm with hchild | hassigned
    · have hparent := h.mem_children.mp hchild
      have hdepth := h.depth_of_parent hparent
      simp only [measure, h.rootOf_of_parent hparent]
      omega
    · obtain ⟨host, hparent, hhost, -⟩ := h.findSlot_eq_some (h.mem_assignedNodes.mp hassigned)
      have hlt : height (t.rootOf m) < height (t.rootOf n) := by
        rw [h.rootOf_of_parent hparent]
        exact (hroot host).trans_lt (hheight (Or.inr hhost))
      have hmul := Nat.mul_le_mul_right (t.size + 1) hlt
      simp only [measure, Nat.succ_mul] at hmul ⊢
      omega
  refine exists_rank_of_acyclic h.lt_size_of_shows fun n hn => ?_
  exact Nat.lt_irrefl _ (rank_lt_of_transGen hn hmeasure)

/-! ### One solution -/

section equations

variable (h : t.WellFormed) (hrank : ∀ {n m}, t.Shows n m → rank m < rank n)

include h hrank

/-- The equation for a node refers to nodes of smaller rank only. -/
theorem addsBy_congr {adds other : NodeId → Option TextDirection} {n : NodeId}
    (heq : ∀ m, rank m < rank n → adds m = other m) :
    t.view.addsBy strong adds n = t.view.addsBy strong other n := by
  have hchildren : ∀ m, rank m ≤ rank n →
      (t.view.children m).findSome? adds = (t.view.children m).findSome? other := by
    intro m hm
    rw [h.view_children]
    refine findSome?_congr fun c hc => heq c ?_
    exact (hrank (Or.inl hc)).trans_le hm
  have hassigned : (t.view.assignedNodes n).findSome? (t.view.slottedBy strong adds) =
      (t.view.assignedNodes n).findSome? (t.view.slottedBy strong other) := by
    refine findSome?_congr fun m hm => ?_
    unfold TreeView.slottedBy
    rw [hchildren m (hrank (Or.inr hm)).le]
  unfold TreeView.addsBy TreeView.shownBy
  rw [hchildren n le_rfl, hassigned]

/-- Once the equations were applied more often than the rank of a node, its value does not change
any more. -/
theorem iterate_addsBy_eq {adds other : NodeId → Option TextDirection} {i j : Nat} {n : NodeId}
    (hi : rank n < i) (hj : rank n < j) :
    (t.view.addsBy strong)^[i] adds n = (t.view.addsBy strong)^[j] other n := by
  induction i generalizing j n with
  | zero => cases hi
  | succ i ih =>
      obtain ⟨j, rfl⟩ := Nat.exists_eq_add_one_of_ne_zero (Nat.ne_zero_of_lt hj)
      rw [Function.iterate_succ_apply', Function.iterate_succ_apply']
      refine addsBy_congr h hrank fun m hm => ih ?_ ?_
      · omega
      · omega

end equations

/-- **What nodes add is the only solution of the equations for it.** -/
theorem WellFormed.adds_iff (h : t.WellFormed) (adds : NodeId → Option TextDirection) :
    (∀ n, adds n = t.view.addsBy strong adds n) ↔ adds = t.view.adds strong := by
  obtain ⟨rank, hle, hrank⟩ := h.exists_rank_shows
  constructor
  · intro hadds
    have hfixed : (t.view.addsBy strong)^[t.size + 1] adds = adds :=
      Function.iterate_fixed (funext fun n => (hadds n).symm) _
    funext n
    have hn := Nat.lt_succ_of_le (hle n)
    exact (congrFun hfixed n).symm.trans (iterate_addsBy_eq h hrank hn hn)
  · rintro rfl n
    have hn := Nat.lt_succ_of_le (hle n)
    have honce : t.view.adds strong n =
        (t.view.addsBy strong)^[t.size + 1 + 1] (fun _ => none) n :=
      iterate_addsBy_eq h hrank hn (Nat.lt_succ_of_lt hn)
    rw [honce, Function.iterate_succ_apply']
    rfl

/-- **The solution** meets the equations. -/
theorem WellFormed.adds_eq (h : t.WellFormed) (n : NodeId) :
    t.view.adds strong n = t.view.addsBy strong (t.view.adds strong) n :=
  (h.adds_iff _).mpr rfl n

/-! ### One search and those it starts -/

section search

variable (h : t.WellFormed) (hrank : ∀ {n m}, t.Shows n m → rank m < rank n)
  {content : NodeId → Option (Option TextDirection)} {height : Nat}
  (hcontent : ∀ n, rank n < height →
    content n = some ((t.view.children n).findSome? (t.view.adds strong)))

include hrank hcontent

/-- The search of what is assigned to a slot finds what the solution says. -/
theorem assignedDirection_eq {s : NodeId} (hs : rank s ≤ height) :
    t.view.assignedDirection strong content s =
      some ((t.view.assignedNodes s).findSome? (t.view.slottedBy strong (t.view.adds strong))) := by
  refine findSomeM?_eq_some fun n hn => ?_
  have hlow := hcontent n ((hrank (Or.inr hn)).trans_le hs)
  unfold TreeView.slottedDirection TreeView.slottedBy
  cases t.view.kind n with
  | element => cases t.view.isolatesText n <;> simp [hlow]
  | _ => rfl

/-- What the direction of an element is that its content decides. -/
theorem autoDirectionBy_eq {n : NodeId} (hn : rank n < height) :
    t.view.autoDirectionBy strong content n =
      some (if t.view.directsByValue n then Text.firstStrongBy strong (t.view.controlValue n)
        else t.view.shownBy strong (t.view.adds strong) n) := by
  unfold TreeView.autoDirectionBy TreeView.shownBy
  rw [assignedDirection_eq hrank hcontent hn.le, hcontent n hn]
  cases t.view.directsByValue n <;> cases t.view.showsAssigned n <;> rfl

include h

/-- **One search**: it takes each node below those on the stack at most once, and finds what the
first node on the stack adds that adds something.  A slot starts a search of its own, any other
element makes way for its children. -/
theorem searchStack_eq {bound : Nat} {stack : List NodeId}
    (hstack : ∀ n ∈ stack, rank n < height)
    (hbound : (stack.flatMap t.subtree).length ≤ bound) :
    t.view.searchStack strong content bound stack =
      some (stack.findSome? (t.view.adds strong)) := by
  induction bound generalizing stack with
  | zero =>
      cases stack with
      | nil => rfl
      | cons n stack => simp [h.subtree_eq n] at hbound
  | succ bound ih =>
      cases stack with
      | nil => rfl
      | cons n stack =>
          obtain ⟨hn, hrest⟩ := List.forall_mem_cons.mp hstack
          rw [List.flatMap_cons, h.subtree_eq, List.cons_append, List.length_cons,
            Nat.add_le_add_iff_right, List.length_append] at hbound
          have hgo := ih hrest (by omega)
          unfold TreeView.searchStack
          rw [List.findSome?_cons, h.adds_eq]
          cases hkind : t.view.kind n with
          | text =>
              rw [TreeView.addsBy_text hkind, hgo]
              cases t.view.textDirection? strong n <;> rfl
          | element =>
              cases hisolates : t.view.isolatesText n with
              | true =>
                  rw [TreeView.addsBy_isolated hkind hisolates]
                  exact hgo
              | false =>
                  rw [TreeView.addsBy_element hkind hisolates]
                  cases hslot : t.view.isHtml n "slot" with
                  | true =>
                      simp only [autoDirectionBy_eq hrank hcontent hn, hgo,
                        TreeView.directsByValue_of_slot hslot, Bool.false_eq_true, if_false,
                        if_true]
                      cases t.view.shownBy strong (t.view.adds strong) n <;> rfl
                  | false =>
                      rw [TreeView.shownBy_of_not_slot hslot, h.view_children]
                      have hpushed : ∀ m ∈ t.children n ++ stack, rank m < height := by
                        intro m hm
                        rcases List.mem_append.mp hm with hchild | hlater
                        · exact (hrank (Or.inl hchild)).trans hn
                        · exact hrest m hlater
                      rw [← List.length_append, ← List.flatMap_append] at hbound
                      simp only [Bool.false_eq_true, if_false, ih hpushed hbound,
                        List.findSome?_append]
                      cases (t.children n).findSome? (t.view.adds strong) <;> rfl
          | _ =>
              rw [TreeView.addsBy_other (by simp [hkind]) (by simp [hkind])]
              exact hgo

end search

/-- **All searches that a search starts end**, and it finds what the first child adds that adds
something. -/
theorem contentDirection_eq (h : t.WellFormed) (hrank : ∀ {n m}, t.Shows n m → rank m < rank n)
    {bound : Nat} {n : NodeId} (hbound : rank n < bound) :
    t.view.contentDirection strong bound n =
      some ((t.view.children n).findSome? (t.view.adds strong)) := by
  induction bound generalizing n with
  | zero => cases hbound
  | succ bound ih =>
      have hlow : ∀ m, rank m < rank n → t.view.contentDirection strong bound m =
          some ((t.view.children m).findSome? (t.view.adds strong)) :=
        fun m hm => ih (by omega)
      refine searchStack_eq h hrank hlow ?_ ?_
      · rw [h.view_children]
        exact fun m hm => hrank (Or.inl hm)
      · rw [h.view_children]
        exact h.length_below_le n

/-- A search with a bound above the number of nodes ends, with what the solution says. -/
theorem WellFormed.contentDirection_eq_of_size_lt (h : t.WellFormed) {bound : Nat}
    (hbound : t.size < bound) (n : NodeId) : t.view.contentDirection strong bound n =
      some ((t.view.children n).findSome? (t.view.adds strong)) := by
  obtain ⟨rank, hle, hrank⟩ := h.exists_rank_shows
  exact contentDirection_eq h hrank ((hle n).trans_lt hbound)

/-- The direction found automatically is that of a value, or of what is shown. -/
theorem WellFormed.autoDirection_eq (h : t.WellFormed) (n : NodeId) :
    t.view.autoDirection strong n =
      some (if t.view.directsByValue n then Text.firstStrongBy strong (t.view.controlValue n)
        else t.view.shownBy strong (t.view.adds strong) n) := by
  obtain ⟨rank, -, hrank⟩ := h.exists_rank_shows
  have hcontent : ∀ m, rank m < rank n + 1 →
      t.view.contentDirection strong (t.size + 1) m =
        some ((t.view.children m).findSome? (t.view.adds strong)) :=
    fun m _ => h.contentDirection_eq_of_size_lt (Nat.lt_succ_self _) m
  exact autoDirectionBy_eq hrank hcontent (Nat.lt_succ_self _)

/-! ### The walk outwards -/

/-- Looking for a direction of the element's own ends. -/
theorem WellFormed.exists_ownDirection? (h : t.WellFormed) (n : NodeId) :
    ∃ own, t.view.ownDirection? strong n = some own := by
  unfold TreeView.ownDirection?
  rw [h.autoDirection_eq]
  cases t.view.dirState? n with
  | some state => cases state <;> exact ⟨_, rfl⟩
  | none =>
      dsimp only
      split
      · exact ⟨_, rfl⟩
      · split <;> exact ⟨_, rfl⟩

/-- A node stands inside of the node whose direction it takes over, or in its shadow tree. -/
theorem WellFormed.exists_rank_directionParent (h : t.WellFormed) :
    ∃ rank : NodeId → Nat, (∀ n, rank n ≤ t.size) ∧
      ∀ {n m}, t.view.directionParent n = some m → rank m < rank n := by
  obtain ⟨height, hheight⟩ := h.ranked
  have hstep : ∀ {n m}, t.view.directionParent n = some m → m < t.size ∧ height m < height n := by
    intro n m hm
    obtain ⟨p, hp, hm⟩ := Option.bind_eq_some_iff.mp hm
    have hparent : t.HangsFrom n p := Or.inl hp
    cases hkind : t.view.kind p <;> simp only [hkind, reduceCtorEq] at hm
    · have hhost : t.HangsFrom p m := Or.inr hm
      exact ⟨h.hangsFrom_lt hhost, (hheight hhost).trans (hheight hparent)⟩
    · obtain rfl := Option.some.inj hm
      exact ⟨h.lt_size hp, hheight hparent⟩
  refine exists_rank_of_acyclic (fun hm => (hstep hm).1) fun n hn => ?_
  exact Nat.lt_irrefl _ (rank_lt_of_transGen hn fun hm => (hstep hm).2)

/-- The walk outwards ends, and its result is the same for all bounds above the rank of the node. -/
theorem exists_directionWithin (h : t.WellFormed)
    (hrank : ∀ {n m}, t.view.directionParent n = some m → rank m < rank n) (n : NodeId) :
    ∃ d, ∀ bound, rank n < bound → t.view.directionWithin strong bound n = some d := by
  induction hr : rank n using Nat.strong_induction_on generalizing n with
  | _ r ih =>
      subst hr
      obtain ⟨own, hown⟩ : ∃ own, t.view.ownDirection? strong n = some own :=
        h.exists_ownDirection? n
      have hstep : ∀ d, (∀ bound, rank n ≤ bound →
          t.view.directionWithin strong (bound + 1) n = some d) →
          ∃ d, ∀ bound, rank n < bound → t.view.directionWithin strong bound n = some d := by
        refine fun d hd => ⟨d, fun bound hbound => ?_⟩
        obtain ⟨bound, rfl⟩ := Nat.exists_eq_add_one_of_ne_zero (Nat.ne_zero_of_lt hbound)
        exact hd bound (Nat.le_of_lt_succ hbound)
      cases own with
      | some d => exact hstep d fun bound _ => by rw [TreeView.directionWithin, hown]
      | none =>
          cases hp : t.view.directionParent n with
          | none =>
              refine hstep .ltr fun bound _ => ?_
              rw [TreeView.directionWithin, hown, hp]
              rfl
          | some p =>
              have hlt := hrank hp
              obtain ⟨d, hd⟩ := ih (rank p) hlt p rfl
              refine hstep d fun bound hbound => ?_
              rw [TreeView.directionWithin, hown, hp]
              exact hd bound (hlt.trans_le hbound)

/-- **The walk outwards ends**, within as many steps as there are nodes. -/
theorem WellFormed.directionWithin_eq (h : t.WellFormed) {bound : Nat} (hbound : t.size < bound)
    (n : NodeId) : t.view.directionWithin strong bound n = some (t.view.directionBy strong n) := by
  obtain ⟨rank, hle, hrank⟩ := h.exists_rank_directionParent
  obtain ⟨d, hd⟩ : ∃ d, ∀ bound, rank n < bound →
      t.view.directionWithin strong bound n = some d := exists_directionWithin h hrank n
  have hsize : t.view.directionWithin strong (t.view.size + 1) n = some d :=
    hd _ (Nat.lt_succ_of_le (hle n))
  rw [TreeView.directionBy, hsize, hd bound ((hle n).trans_lt hbound), Option.getD_some]

end Tree

end Selectors

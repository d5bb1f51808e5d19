import Selectors.Proofs.Tree.Acyclic

/-!
# How two nodes stand to each other

The position of one node as seen from another is found by comparing roots, by looking each node up
on the path to the other, and else where the two paths part.  Whichever way it is found, it says how
the nodes stand to each other, and the answer to the question asked the other way round is its
mirror.  Taken together the answers put all nodes of the store in one order, which inside of a tree
is the order of the walk from its root.

* `Position.Shows` reads a flag off the mask in which a position is reported, and
  `Position.shows_iff` tells what each flag says.
* `Tree.Stands` is how two nodes stand to each other, and `Tree.WellFormed.stands_iff` says that
  this is what positions tell.
* `TreeView.documentOrder` compares two nodes, and `Tree.WellFormed.documentOrder_eq` makes this a
  comparison of two pairs of numbers.
* `Tree.OrdersNodes` collects what a store's positions say, and `Tree.ordersNodes_of_built` that
  they say so in every store without cycles.
-/

namespace Selectors

/-! ### Flags -/

namespace Position

/-- The flags that a position is reported by. -/
inductive Flag where
  | disconnected
  | preceding
  | following
  | contains
  | containedBy
  /-- The order is the store's own. -/
  | ownOrder
  deriving DecidableEq, Repr

/-- The bit of a flag. -/
def Flag.mask : Flag → Nat
  | disconnected => 1
  | preceding => 2
  | following => 4
  | contains => 8
  | containedBy => 16
  | ownOrder => 32

/-- What a flag becomes when the two nodes change places. -/
def Flag.mirror : Flag → Flag
  | preceding => following
  | following => preceding
  | contains => containedBy
  | containedBy => contains
  | disconnected => disconnected
  | ownOrder => ownOrder

/-- The mask of a position holds a flag. -/
def Shows (p : Position) (flag : Flag) : Prop :=
  p.bits &&& flag.mask = flag.mask

instance (p : Position) (flag : Flag) : Decidable (p.Shows flag) :=
  inferInstanceAs (Decidable (_ = _))

/-- Where the first node lies as seen from the second one. -/
def mirror : Position → Position
  | same => same
  | contains => containedBy
  | containedBy => contains
  | preceding => following
  | following => preceding
  | disconnected follows => disconnected !follows

/-- Whether the two nodes are in different trees. -/
def isDisconnected : Position → Bool
  | disconnected _ => true
  | _ => false

/-- What a flag says of a position. -/
def Flag.says : Flag → Position → Bool
  | disconnected, p | ownOrder, p => p.isDisconnected
  | preceding, p => p.isPreceding
  | following, p => p.isFollowing
  | contains, p => p == .contains
  | containedBy, p => p == .containedBy

/-- **The mask holds the flags that are true of the position**, and no other. -/
theorem shows_iff {p : Position} {flag : Flag} : p.Shows flag ↔ flag.says p = true := by
  cases p with
  | disconnected follows => cases follows <;> cases flag <;> decide
  | _ => cases flag <;> decide

/-- Seen from the other node each flag is its mirror. -/
theorem shows_mirror {p : Position} {flag : Flag} : p.mirror.Shows flag.mirror ↔ p.Shows flag := by
  cases p with
  | disconnected follows => cases follows <;> cases flag <;> decide
  | _ => cases flag <;> decide

/-- Only the position of a node from itself is reported without a flag. -/
theorem bits_eq_zero_iff {p : Position} : p.bits = 0 ↔ p = same := by
  cases p with
  | disconnected follows => cases follows <;> decide
  | _ => decide

/-- Of two different nodes the second comes earlier or later, and not both. -/
theorem isPreceding_eq {p : Position} (hp : p ≠ same) : p.isPreceding = !p.isFollowing := by
  cases p with
  | same => exact absurd rfl hp
  | disconnected follows => cases follows <;> rfl
  | _ => rfl

end Position

namespace Tree

/-! ### Standing -/

/-- How the node `b` stands to the node `a`, in the words of a position. -/
inductive Stands (t : Tree) (a b : NodeId) : Position → Prop
  | same (heq : a = b) : Stands t a b .same
  | apart (hroot : t.rootOf a ≠ t.rootOf b) :
    Stands t a b (.disconnected (decide (t.rootOf a < t.rootOf b)))
  | above (hbelow : t.Below a b) : Stands t a b .contains
  | below (hbelow : t.Below b a) : Stands t a b .containedBy
  | before (hroot : t.rootOf a = t.rootOf b) (ha : ¬ t.Below a b) (hb : ¬ t.Below b a)
    (hlt : t.rankInTree b < t.rankInTree a) : Stands t a b .preceding
  | after (hroot : t.rootOf a = t.rootOf b) (ha : ¬ t.Below a b) (hb : ¬ t.Below b a)
    (hlt : t.rankInTree a < t.rankInTree b) : Stands t a b .following

variable {t : Tree} {a b : NodeId} {p : Position}

/-- How two nodes stand to each other, seen from the other one. -/
theorem Stands.mirror (hs : t.Stands a b p) : t.Stands b a p.mirror := by
  cases hs with
  | same heq => exact .same heq.symm
  | apart hroot =>
      have hflip : (!decide (t.rootOf a < t.rootOf b)) = decide (t.rootOf b < t.rootOf a) := by
        rw [← decide_not, decide_eq_decide]
        constructor
        · intro hle
          exact Nat.lt_of_le_of_ne (Nat.le_of_not_lt hle) (Ne.symm hroot)
        · exact Nat.not_lt_of_gt
      rw [Position.mirror, hflip]
      exact .apart (Ne.symm hroot)
  | above hbelow => exact .below hbelow
  | below hbelow => exact .above hbelow
  | before hroot ha hb hlt => exact .after hroot.symm hb ha hlt
  | after hroot ha hb hlt => exact .before hroot.symm hb ha hlt

/-- Paths that part say earlier or later and nothing else. -/
theorem branchOrder_cases (t : Tree) (q : NodeId) (as bs : List NodeId) :
    t.branchOrder q as bs = .preceding ∨ t.branchOrder q as bs = .following := by
  induction as generalizing q bs with
  | nil => exact Or.inr rfl
  | cons a as ih =>
      cases bs with
      | nil => exact Or.inr rfl
      | cons b bs =>
          rw [branchOrder]
          split
          · exact ih a bs
          · split
            · exact Or.inl rfl
            · exact Or.inr rfl

/-- Two nodes of one tree of which none is below the other are in the order of the walk.  The paths
say earlier or later, and the order of the walk says which of them. -/
private theorem WellFormed.position_of_branched (h : t.WellFormed) (hne : a ≠ b)
    (hroot : t.rootOf a = t.rootOf b) (ha : ¬ t.Below a b) (hb : ¬ t.Below b a) :
    t.position a b = if t.rankInTree a < t.rankInTree b then .following else .preceding := by
  have hposition : t.position a b = t.branchOrder root (t.path a) (t.path b) := by
    rw [← h.mem_ancestors] at ha hb
    rw [position, if_neg hne, if_neg (not_not.mpr hroot), if_neg ha, if_neg hb]
  have hprecedes : t.Precedes a b ↔ t.rankInTree a < t.rankInTree b := by
    simp [h.precedes_iff, hroot]
  unfold Precedes at hprecedes
  rcases t.branchOrder_cases root (t.path a) (t.path b) with horder | horder
  · rw [hposition, horder] at hprecedes ⊢
    rw [if_neg (hprecedes.not.mp (by decide))]
  · rw [hposition, horder] at hprecedes ⊢
    rw [if_pos (hprecedes.mp rfl)]

/-- **Positions tell how nodes stand to each other.** -/
theorem WellFormed.position_of_stands (h : t.WellFormed) (hs : t.Stands a b p) :
    t.position a b = p := by
  cases hs with
  | same heq => rw [position, if_pos heq]
  | apart hroot =>
      have hne : a ≠ b := fun heq => hroot (congrArg t.rootOf heq)
      rw [position, if_neg hne, if_pos hroot]
  | above hbelow => exact (h.position_of_below hbelow).2
  | below hbelow => exact (h.position_of_below hbelow).1
  | before hroot ha hb hlt =>
      have hne : a ≠ b := fun heq => Nat.lt_irrefl _ (heq ▸ hlt)
      rw [h.position_of_branched hne hroot ha hb, if_neg (Nat.not_lt_of_gt hlt)]
  | after hroot ha hb hlt =>
      have hne : a ≠ b := fun heq => Nat.lt_irrefl _ (heq ▸ hlt)
      rw [h.position_of_branched hne hroot ha hb, if_pos hlt]

/-- Any two nodes stand to each other in one of these ways. -/
private theorem WellFormed.exists_stands (h : t.WellFormed) (a b : NodeId) :
    ∃ p, t.Stands a b p := by
  by_cases heq : a = b
  · exact ⟨_, .same heq⟩
  by_cases hroot : t.rootOf a = t.rootOf b
  · by_cases ha : t.Below a b
    · exact ⟨_, .above ha⟩
    by_cases hb : t.Below b a
    · exact ⟨_, .below hb⟩
    rcases Nat.lt_or_gt_of_ne (h.rankInTree_ne heq hroot) with hlt | hgt
    · exact ⟨_, .after hroot ha hb hlt⟩
    · exact ⟨_, .before hroot ha hb hgt⟩
  · exact ⟨_, .apart hroot⟩

/-- **Positions are exact**: each way of standing has its own. -/
theorem WellFormed.stands_iff (h : t.WellFormed) : t.Stands a b p ↔ t.position a b = p := by
  constructor
  · exact h.position_of_stands
  · rintro rfl
    obtain ⟨p, hs⟩ := h.exists_stands a b
    exact h.position_of_stands hs ▸ hs

/-- **The position seen from the other node is the mirror.** -/
theorem WellFormed.position_mirror (h : t.WellFormed) (a b : NodeId) :
    t.position b a = (t.position a b).mirror :=
  h.stands_iff.mp (h.stands_iff.mpr rfl).mirror

/-- Only a node itself is in its own position. -/
theorem WellFormed.position_eq_same_iff (h : t.WellFormed) : t.position a b = .same ↔ a = b := by
  rw [← h.stands_iff]
  constructor
  · rintro ⟨heq⟩
    exact heq
  · exact .same

/-- What stands below a node is in it, and nothing else. -/
theorem WellFormed.position_eq_contains_iff (h : t.WellFormed) :
    t.position a b = .contains ↔ t.Below a b := by
  rw [← h.stands_iff]
  constructor
  · rintro ⟨⟩
    assumption
  · exact .above

/-- Nodes of different trees are disconnected, and no others. -/
theorem WellFormed.isDisconnected_iff (h : t.WellFormed) :
    (t.position a b).isDisconnected = true ↔ t.rootOf a ≠ t.rootOf b := by
  have hs := h.stands_iff.mpr (rfl : t.position a b = _)
  generalize t.position a b = p at hs ⊢
  cases hs with
  | same heq => simp [Position.isDisconnected, heq]
  | apart hroot => simp [Position.isDisconnected, hroot]
  | above hbelow => simp [Position.isDisconnected, h.rootOf_of_below hbelow]
  | below hbelow => simp [Position.isDisconnected, h.rootOf_of_below hbelow]
  | before hroot _ _ _ => simp [Position.isDisconnected, hroot]
  | after hroot _ _ _ => simp [Position.isDisconnected, hroot]

end Tree

/-! ### Document order -/

/-- How two nodes compare in document order. -/
def TreeView.documentOrder (v : TreeView) (a b : NodeId) : Ordering :=
  if a = b then .eq else if (v.position a b).isFollowing then .lt else .gt

/-- Sorting asks for document order. -/
theorem TreeView.isLE_documentOrder (v : TreeView) (a b : NodeId) :
    (v.documentOrder a b).isLE = v.precedesOrSame a b := by
  unfold documentOrder precedesOrSame
  by_cases hab : a = b
  · simp [hab]
  · cases (v.position a b).isFollowing <;> simp [hab]

namespace Tree

variable {t : Tree} {a b : NodeId}

/-- **Document order compares two pairs of numbers**: roots, and places in the walk from a root. -/
theorem WellFormed.documentOrder_eq (h : t.WellFormed) :
    t.view.documentOrder = compareLex (compareOn t.rootOf) (compareOn t.rankInTree) := by
  funext a b
  have hprecedes : (t.position a b).isFollowing = true ↔ _ := h.precedes_iff
  change (if a = b then Ordering.eq else if (t.position a b).isFollowing then .lt else .gt) =
    (compare (t.rootOf a) (t.rootOf b)).then (compare (t.rankInTree a) (t.rankInTree b))
  by_cases hab : a = b
  · simp [hab]
  rw [if_neg hab]
  rcases Nat.lt_trichotomy (t.rootOf a) (t.rootOf b) with hlt | hroot | hgt
  · rw [if_pos (hprecedes.mpr (Or.inl hlt)), Nat.compare_eq_lt.mpr hlt]
    rfl
  · rw [Nat.compare_eq_eq.mpr hroot]
    rcases Nat.lt_or_gt_of_ne (h.rankInTree_ne hab hroot) with hlt | hgt
    · rw [if_pos (hprecedes.mpr (Or.inr ⟨hroot, hlt⟩)), Nat.compare_eq_lt.mpr hlt]
      rfl
    · rw [if_neg, Nat.compare_eq_gt.mpr hgt]
      · rfl
      rw [hprecedes]
      rintro (hlt | ⟨-, hlt⟩)
      · exact Nat.lt_irrefl _ (hroot ▸ hlt)
      · exact Nat.lt_asymm hgt hlt
  · rw [if_neg, Nat.compare_eq_gt.mpr hgt]
    · rfl
    rw [hprecedes]
    rintro (hlt | ⟨hroot, -⟩)
    · exact Nat.lt_asymm hgt hlt
    · exact Nat.lt_irrefl _ (hroot ▸ hgt)

/-! ### All positions of a store -/

/-- **What positions say, and in which order they put the nodes of a store.** -/
structure OrdersNodes (t : Tree) : Prop where
  /-- Without a flag a node is reported from itself only. -/
  same : ∀ a b, (t.position a b).bits = 0 ↔ a = b
  /-- Another node comes later exactly if it does not come earlier. -/
  oneWay : ∀ a b, a ≠ b →
    ((t.position a b).Shows .following ↔ ¬ (t.position a b).Shows .preceding)
  contains : ∀ a b, (t.position a b).Shows .contains ↔ t.Below a b
  containedBy : ∀ a b, (t.position a b).Shows .containedBy ↔ t.Below b a
  disconnected : ∀ a b, (t.position a b).Shows .disconnected ↔ t.rootOf a ≠ t.rootOf b
  /-- The answer to the question asked the other way round. -/
  mirrored : ∀ a b flag, (t.position b a).Shows flag.mirror ↔ (t.position a b).Shows flag
  /-- Document order is total and transitive, trees of their own included. -/
  ordered : Std.TransCmp t.view.documentOrder
  /-- No two nodes are equal in document order. -/
  distinct : Std.LawfulEqCmp t.view.documentOrder
  /-- Sorting goes by document order. -/
  sorts : ∀ a b, t.view.precedesOrSame a b = (t.view.documentOrder a b).isLE
  /-- In one tree document order is the order of the walk from its root. -/
  walked : ∀ a b r, t.rootOf a = r → t.rootOf b = r →
    t.view.documentOrder a b =
      compare ((r :: t.descendants r).idxOf a) ((r :: t.descendants r).idxOf b)

/-- **The positions of a well-formed tree put its nodes in order.** -/
theorem WellFormed.ordersNodes (h : t.WellFormed) : t.OrdersNodes where
  same a b := by
    rw [Position.bits_eq_zero_iff, h.position_eq_same_iff]
  oneWay a b hab := by
    have hne : t.position a b ≠ .same := mt h.position_eq_same_iff.mp hab
    simp [Position.shows_iff, Position.Flag.says, Position.isPreceding_eq hne]
  contains a b := by
    rw [Position.shows_iff, ← h.position_eq_contains_iff]
    exact beq_iff_eq
  containedBy a b := by
    rw [← Position.shows_mirror, ← h.position_mirror, ← h.position_eq_contains_iff,
      Position.shows_iff]
    exact beq_iff_eq
  disconnected a b := by
    rw [Position.shows_iff, ← h.isDisconnected_iff]
    rfl
  mirrored a b flag := by
    rw [h.position_mirror a b, Position.shows_mirror]
  ordered := by
    rw [h.documentOrder_eq]
    infer_instance
  distinct :=
    { compare_self := by simp [TreeView.documentOrder]
      eq_of_compare := by
        intro a b hab
        unfold TreeView.documentOrder at hab
        split at hab
        · assumption
        · split at hab <;> cases hab }
  sorts a b := (t.view.isLE_documentOrder a b).symm
  walked a b r ha hb := by
    rw [h.documentOrder_eq]
    simp only [compareLex, compareOn, rankInTree, ha, hb, h.subtree_eq_cons]
    simp

@[simp] theorem documentOrder_outline : t.outline.view.documentOrder = t.view.documentOrder := by
  have hposition : t.outline.view.position = t.view.position := position_outline
  funext a b
  simp only [TreeView.documentOrder, hposition]

/-- **Positions order the nodes of every store without cycles**: of each tree as of all of them. -/
theorem ordersNodes_of_built (ht : t.Built) (hacyclic : ∀ n, ¬ t.Below n n) : t.OrdersNodes := by
  have horders := (ht.wellFormed_outline hacyclic).ordersNodes
  exact
    { same := by simpa using horders.same
      oneWay := by simpa using horders.oneWay
      contains := by simpa using horders.contains
      containedBy := by simpa using horders.containedBy
      disconnected := by simpa using horders.disconnected
      mirrored := by simpa using horders.mirrored
      ordered := by simpa using horders.ordered
      distinct := by simpa using horders.distinct
      sorts := fun a b => (t.view.isLE_documentOrder a b).symm
      walked := by simpa using horders.walked }

/-- In the grafted store, which has no cycles, the positions put all nodes in order: the flags of
four pairs. -/
theorem ordersNodes_of_built_grafted :
    grafted.Built ∧ (∀ n, ¬ grafted.Below n n) ∧ grafted.OrdersNodes ∧
      (grafted.position 2 4).bits = 2 ∧ (grafted.position 4 1).bits = 10 ∧
      (grafted.position 7 6).bits = 20 ∧ (grafted.position 6 4).bits = 35 :=
  ⟨grafted_built, grafted_acyclic, ordersNodes_of_built grafted_built grafted_acyclic,
    by decide +kernel, by decide +kernel, by decide +kernel, by decide +kernel⟩

end Tree

end Selectors

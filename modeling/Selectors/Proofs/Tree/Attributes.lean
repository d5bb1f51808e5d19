import Selectors.Matching.Attribute
import Selectors.Proofs.Control.Names
import Selectors.Proofs.Language.Ranges
import Selectors.Proofs.Tree.WellFormed

/-!
# Setting and removing attributes

On an HTML element of an HTML document an attribute is set under its name in small letters, and
matching compares names without regard to case.  Looking an attribute up and removing it go by the
name as written.  So a name finds what was set under it exactly if it is the spelling under which it
is set; one with a capital letter finds nothing new, and removing it changes nothing.

* `Tree.find?_putAttribute` and `Tree.filter_putAttribute` are about the list of attributes: one
  entry is written, and the others stay as they are, in their order.
* `Tree.PlainNames` is what holds of an element on which no attribute was set with a namespace;
  `Tree.apply_plainNames` is the step and `Tree.plainNames_of_changes` the run.
* `Tree.KeepsAttributes` and `Tree.ForgetsRemoved` collect what setting and removing do, and
  `Tree.attributes_of_changes` is the result.
-/

namespace Selectors

/-- A name in small letters has no capital letters to change. -/
theorem Text.lower_lower (s : String) : lower (lower s) = lower s := by
  have hsmall : ∀ c : Char, c.toLower.toLower = c.toLower := by
    intro c
    rcases toLower_eq c with hsame | ⟨-, -, hletter⟩
    · rw [hsame, hsame]
    · refine dif_neg fun hcapital => ?_
      have hle := hcapital.2
      rw [UInt32.le_iff_toNat_le] at hle hletter
      exact absurd (Nat.le_trans hletter hle) (by decide)
  rw [← String.toList_inj, toList_lower, toList_lower, List.map_map]
  exact List.map_congr_left fun c _ => hsmall c

namespace Change

/-- The change makes no element that has attributes from the start, and sets no attribute of `n`
with a namespace. -/
def NamesPlainly (n : NodeId) : Change → Prop
  | .create (.element e) => e.attributes = []
  | .setAttributeIn m .. => m ≠ n
  | _ => True

instance (n : NodeId) : DecidablePred (NamesPlainly n)
  | .create (.element e) => inferInstanceAs (Decidable (e.attributes = []))
  | .setAttributeIn m .. => inferInstanceAs (Decidable (m ≠ n))
  | .create .document | .create .fragment | .create (.shadowRoot ..) | .create (.text _)
  | .create (.comment _) | .insert .. | .remove .. | .attachShadow .. | .setAttribute ..
  | .removeAttribute .. | .setLive .. | .setDocument _ => .isTrue trivial

end Change

namespace Tree

variable {t t' : Tree} {n m : NodeId} {name value : String}

/-! ### The list of attributes -/

section putAttribute

variable {p : Attribute → Bool} {change : Attribute → Attribute} {fresh : Attribute}
  (hchange : ∀ a, p a = true → p (change a) = true) (hfresh : p fresh = true)

include hchange hfresh

/-- What was put into the list is found. -/
theorem find?_putAttribute (as : List Attribute) :
    (putAttribute p change fresh as).find? p = some (((as.find? p).map change).getD fresh) := by
  induction as with
  | nil => simp [putAttribute, hfresh]
  | cons a as ih =>
      by_cases ha : p a = true
      · simp [putAttribute, ha, hchange a ha]
      · simp [putAttribute, ha, ih]

/-- The others stay, in their order. -/
theorem filter_putAttribute (as : List Attribute) :
    (putAttribute p change fresh as).filter (fun a => !p a) = as.filter fun a => !p a := by
  induction as with
  | nil => simp [putAttribute, hfresh]
  | cons a as ih =>
      by_cases ha : p a = true
      · simp [putAttribute, ha, hchange a ha]
      · simp [putAttribute, ha, ih]

end putAttribute

/-- An attribute in the list was there before, or is the new one, or a changed one. -/
theorem mem_putAttribute {p : Attribute → Bool} {change : Attribute → Attribute}
    {fresh a : Attribute} {as : List Attribute} (ha : a ∈ putAttribute p change fresh as) :
    a ∈ as ∨ a = fresh ∨ ∃ b ∈ as, a = change b := by
  induction as with
  | nil => exact Or.inr (Or.inl (List.mem_singleton.mp ha))
  | cons b as ih =>
      unfold putAttribute at ha
      split at ha
      · rcases List.mem_cons.mp ha with rfl | ha
        · exact Or.inr (Or.inr ⟨b, List.mem_cons_self, rfl⟩)
        · exact Or.inl (List.mem_cons_of_mem _ ha)
      · rcases List.mem_cons.mp ha with rfl | ha
        · exact Or.inl List.mem_cons_self
        · rcases ih ha with ha | ha | ⟨c, hc, ha⟩
          · exact Or.inl (List.mem_cons_of_mem _ ha)
          · exact Or.inr (Or.inl ha)
          · exact Or.inr (Or.inr ⟨c, List.mem_cons_of_mem _ hc, ha⟩)

/-! ### One element -/

/-- An attribute is looked up by its qualified name. -/
theorem attribute?_eq (t : Tree) (n : NodeId) (name : String) :
    t.attribute? n name =
      ((t.view.attributes n).find? (·.qualifiedName == name)).map Attribute.value := by
  change (t.element? n).bind _ = ((((t.element? n).map Element.attributes).getD []).find? _).map _
  cases t.element? n <;> rfl

/-- Changing the attributes of an element leaves all other elements alone. -/
theorem element?_modifyElement_of_ne (t : Tree) (f : Element → Element) (hne : m ≠ n) :
    (t.modifyElement n f).element? m = t.element? m := by
  rw [element?_modifyElement, if_neg hne.symm]

/-- A change of an element's attributes is what is seen of them afterwards. -/
theorem attributes_modifyElement (hn : t.view.isElement n = true) {f : Element → Element}
    {g : List Attribute → List Attribute} (hf : ∀ e, (f e).attributes = g e.attributes) :
    (t.modifyElement n f).view.attributes n = g (t.view.attributes n) := by
  obtain ⟨e, he⟩ := exists_element hn
  change (((t.modifyElement n f).element? n).map Element.attributes).getD [] =
    g (((t.element? n).map Element.attributes).getD [])
  rw [element?_modifyElement, if_pos rfl, he]
  exact hf e

/-- Setting an attribute writes the entry of its name, in small letters where the element asks for
it. -/
theorem attributes_setAttribute (hn : t.view.isElement n = true) :
    (t.setAttribute n name value).view.attributes n =
      putAttribute (·.qualifiedName == t.attributeName n name) ({ · with value })
        { localName := t.attributeName n name, value } (t.view.attributes n) :=
  attributes_modifyElement hn (g := putAttribute _ _ _) fun _ => rfl

/-- The name under which an attribute is set finds the value. -/
theorem find?_attributes_setAttribute (hn : t.view.isElement n = true) :
    ((t.setAttribute n name value).view.attributes n).find?
        (·.qualifiedName == t.attributeName n name) =
      some ((((t.view.attributes n).find? (·.qualifiedName == t.attributeName n name)).map
        ({ · with value })).getD { localName := t.attributeName n name, value }) := by
  rw [attributes_setAttribute hn]
  refine find?_putAttribute ?_ ?_ _
  · exact fun _ ha => ha
  · exact beq_self_eq_true _

/-- Attributes with another name stay, in their order. -/
theorem filter_attributes_setAttribute (hn : t.view.isElement n = true) :
    ((t.setAttribute n name value).view.attributes n).filter
        (·.qualifiedName != t.attributeName n name) =
      (t.view.attributes n).filter (·.qualifiedName != t.attributeName n name) := by
  rw [attributes_setAttribute hn]
  refine filter_putAttribute ?_ ?_ _
  · exact fun _ ha => ha
  · exact beq_self_eq_true _

/-- Removing an attribute drops the entries of the name as written. -/
theorem attributes_removeAttribute (hn : t.view.isElement n = true) :
    (t.removeAttribute n name).view.attributes n =
      (t.view.attributes n).filter (·.qualifiedName != name) :=
  attributes_modifyElement hn (g := List.filter _) fun _ => rfl

/-- The spelling under which an attribute is set is its own spelling. -/
theorem attributeName_attributeName (t : Tree) (n : NodeId) (name : String) :
    t.attributeName n (t.attributeName n name) = t.attributeName n name := by
  unfold attributeName
  split
  · exact Text.lower_lower name
  · rfl

/-- An attribute is set under its name in small letters where matching ignores the case of names. -/
theorem attributeName_eq (t : Tree) (n : NodeId) (name : String) :
    t.attributeName n name = if t.view.isHtmlInHtml n then Text.lower name else name := by
  have hrule : (t.isHtml && (t.element? n).any Element.isHtml) = t.view.isHtmlInHtml n := by
    change _ = (((t.element? n).bind Element.space == some Namespace.html) && t.isHtml)
    rw [Bool.and_comm]
    cases t.element? n <;> rfl
  rw [attributeName, hrule]

/-- Looking up by one name, an attribute that was set under another makes no difference. -/
theorem attribute?_setAttribute_of_ne (hn : t.view.isElement n = true)
    (hne : t.attributeName n name ≠ name) :
    (t.setAttribute n name value).attribute? n name = t.attribute? n name := by
  have hfind : ∀ as : List Attribute, as.find? (·.qualifiedName == name) =
      (as.filter (·.qualifiedName != t.attributeName n name)).find? (·.qualifiedName == name) := by
    intro as
    rw [List.find?_filter]
    refine congrArg (as.find? ·) (funext fun a => ?_)
    by_cases ha : a.qualifiedName = name
    · simp [ha, Ne.symm hne]
    · simp [ha]
  rw [attribute?_eq, attribute?_eq, hfind, filter_attributes_setAttribute hn, ← hfind]

/-- **What setting and removing do** to the attributes of an element. -/
structure KeepsAttributes (t : Tree) (n : NodeId) : Prop where
  /-- The value is found under the name that it was set under. -/
  set : ∀ name value,
    (t.setAttribute n name value).attribute? n (t.attributeName n name) = some value
  /-- The name as written finds the value if it is that name, and what it found before if not. -/
  written : ∀ name value, (t.setAttribute n name value).attribute? n name =
    if t.attributeName n name = name then some value else t.attribute? n name
  /-- Attributes with another name keep their values and their order. -/
  others : ∀ name value, ((t.setAttribute n name value).view.attributes n).filter
      (·.qualifiedName != t.attributeName n name) =
    (t.view.attributes n).filter (·.qualifiedName != t.attributeName n name)
  /-- A removed name finds nothing. -/
  removed : ∀ name, (t.removeAttribute n name).attribute? n name = none
  /-- Removing leaves all attributes with another name, in their order. -/
  left : ∀ name, (t.removeAttribute n name).view.attributes n =
    (t.view.attributes n).filter (·.qualifiedName != name)
  /-- Other elements stay as they are. -/
  elsewhere : ∀ name value m, m ≠ n →
    (t.setAttribute n name value).element? m = t.element? m ∧
      (t.removeAttribute n name).element? m = t.element? m

/-- **Setting and removing keep the other attributes**, in their order. -/
theorem keepsAttributes (hn : t.view.isElement n = true) : t.KeepsAttributes n := by
  have hset : ∀ name value,
      (t.setAttribute n name value).attribute? n (t.attributeName n name) = some value := by
    intro name value
    rw [attribute?_eq, find?_attributes_setAttribute hn]
    cases (t.view.attributes n).find? _ <;> rfl
  refine ⟨hset, fun name value => ?_, fun name value => filter_attributes_setAttribute hn,
    fun name => ?_, fun name => attributes_removeAttribute hn, fun name value m hm => ?_⟩
  · split
    · next hsame => rw [← hset name value, hsame]
    · next hne => exact attribute?_setAttribute_of_ne hn hne
  · rw [attribute?_eq, attributes_removeAttribute hn, List.find?_filter, Option.map_eq_none_iff,
      List.find?_eq_none]
    simp
  · exact ⟨element?_modifyElement_of_ne t _ hm, element?_modifyElement_of_ne t _ hm⟩

/-! ### Elements whose attributes have no namespace -/

/-- The attribute has no namespace, and its name is one under which attributes of the element are
set. -/
def IsPlain (t : Tree) (n : NodeId) (a : Attribute) : Prop :=
  a.space = none ∧ a.namePrefix = none ∧ t.attributeName n a.localName = a.localName

/-- All attributes of the element are such. -/
def PlainNames (t : Tree) (n : NodeId) : Prop :=
  ∀ a ∈ t.view.attributes n, t.IsPlain n a

/-- An edit of an element that keeps its namespace and adds plain attributes only. -/
structure EditsPlainly (t : Tree) (n : NodeId) (f : Element → Element) : Prop where
  space : ∀ e, (f e).space = e.space
  attributes : ∀ e, (∀ a ∈ e.attributes, t.IsPlain n a) → ∀ a ∈ (f e).attributes, t.IsPlain n a

/-- An edit that takes attributes away is plain. -/
theorem EditsPlainly.of_subset {f : Element → Element} (hspace : ∀ e, (f e).space = e.space)
    (hattributes : ∀ e, (f e).attributes ⊆ e.attributes) : t.EditsPlainly n f :=
  ⟨hspace, fun e he a ha => he a (hattributes e ha)⟩

/-- Doing nothing is a plain edit. -/
theorem EditsPlainly.id : t.EditsPlainly n id :=
  .of_subset (fun _ => rfl) fun _ => List.Subset.refl _

/-- Setting an attribute is a plain edit: the entry that it adds has no prefix. -/
theorem editsPlainly_setAttribute (t : Tree) (n : NodeId) (name value : String) :
    t.EditsPlainly n fun e =>
      { e with
        attributes := putAttribute (·.qualifiedName == t.attributeName n name) ({ · with value })
          { localName := t.attributeName n name, value } e.attributes } where
  space _ := rfl
  attributes e he a ha := by
    rcases mem_putAttribute ha with hold | rfl | ⟨b, hb, rfl⟩
    · exact he a hold
    · exact ⟨rfl, rfl, attributeName_attributeName t n name⟩
    · exact he b hb

/-- An edit of one element is an edit of each, for most of them an empty one. -/
theorem element?_modifyElement_eq_map (t : Tree) (m n : NodeId) (f : Element → Element) :
    (t.modifyElement m f).element? n = (t.element? n).map (if m = n then f else id) := by
  rw [element?_modifyElement]
  by_cases hm : m = n
  · rw [if_pos hm, if_pos hm]
  · rw [if_neg hm, if_neg hm, Option.map_id, id]

/-- What is no element has no attributes. -/
theorem attributes_eq_nil (hn : t.element? n = none) : t.view.attributes n = [] := by
  change ((t.element? n).map Element.attributes).getD [] = []
  rw [hn]
  rfl

/-! ### Runs of changes -/

theorem content_relinkFrom (before : Option NodeId) (t : Tree) (cs : List NodeId) :
    (relinkFrom before t cs).content = t.content := by
  induction cs generalizing before t with
  | nil => rfl
  | cons c cs ih => exact ih (some c) _

theorem content_removeChild (t : Tree) (p c : NodeId) :
    (t.removeChild p c).content = t.content := by
  unfold removeChild
  split
  · exact content_relinkFrom none _ _
  · rfl

/-- No change makes another kind of document. -/
theorem content_apply (t : Tree) (c : Change) : (t.apply c).content = t.content := by
  cases c with
  | insert p n reference =>
      have hdetach : (t.detach n).content = t.content := by
        unfold detach
        split
        · exact content_removeChild t _ n
        · rfl
      exact (content_relinkFrom none _ _).trans hdetach
  | remove p n => exact content_removeChild t p n
  | attachShadow host mode =>
      change (t.attachShadow host mode).1.content = t.content
      unfold attachShadow
      split
      · rfl
      · split <;> rfl
  | _ => rfl

/-- The name under which an attribute is set depends on the namespace of the element only. -/
theorem attributeName_apply (t : Tree) (c : Change)
    (hspace : (t.apply c).view.space n = t.view.space n) :
    (t.apply c).attributeName n = t.attributeName n := by
  have hhtml : (t.apply c).view.isHtmlInHtml n = t.view.isHtmlInHtml n := by
    have hcontent : (t.apply c).isHtml = t.isHtml := by
      rw [isHtml, isHtml, content_apply]
    unfold TreeView.isHtmlInHtml
    rw [hspace]
    exact congrArg (_ && ·) hcontent
  funext name
  rw [attributeName_eq, attributeName_eq, hhtml]

/-- Removing an attribute keeps the spelling of names on the element. -/
theorem attributeName_removeAttribute (t : Tree) (n : NodeId) (name : String) :
    (t.removeAttribute n name).attributeName n = t.attributeName n := by
  refine attributeName_apply t (.removeAttribute n name) ?_
  change ((t.removeAttribute n name).element? n).bind Element.space =
    (t.element? n).bind Element.space
  rw [removeAttribute, element?_modifyElement, if_pos rfl]
  cases t.element? n <;> rfl

/-- **An edit that adds plain attributes only keeps all attributes plain.** -/
theorem PlainNames.edit (h : t.PlainNames n) {c : Change} {f : Element → Element}
    (hf : t.EditsPlainly n f) (hedit : (t.apply c).element? n = (t.element? n).map f) :
    (t.apply c).PlainNames n := by
  have hname : (t.apply c).attributeName n = t.attributeName n := by
    refine attributeName_apply t c ?_
    change ((t.apply c).element? n).bind Element.space = (t.element? n).bind Element.space
    rw [hedit]
    cases t.element? n with
    | none => rfl
    | some e => exact hf.space e
  intro a ha
  unfold IsPlain
  rw [hname]
  cases helement : t.element? n with
  | none =>
      rw [helement] at hedit
      rw [attributes_eq_nil hedit] at ha
      cases ha
  | some e =>
      rw [helement] at hedit
      have he : ∀ a ∈ e.attributes, t.IsPlain n a := by
        intro b hb
        refine h b ?_
        change b ∈ ((t.element? n).map Element.attributes).getD []
        rw [helement]
        exact hb
      refine hf.attributes e he a ?_
      change a ∈ (((t.apply c).element? n).map Element.attributes).getD [] at ha
      rwa [hedit] at ha

/-- Attaching a shadow root is a plain edit of every element. -/
theorem exists_edit_attachShadow (t : Tree) (host n : NodeId) (mode : ShadowMode) :
    ∃ f, t.EditsPlainly n f ∧
      (t.attachShadow host mode).1.element? n = (t.element? n).map f := by
  have hnothing : (t.element? n) = (t.element? n).map id := by
    rw [Option.map_id, id]
  unfold attachShadow
  split
  · exact ⟨id, .id, hnothing⟩
  · split
    · exact ⟨id, .id, hnothing⟩
    · refine ⟨if host = n then fun e => { e with shadowRoot := some t.size } else id, ?_, ?_⟩
      · split
        · exact .of_subset (fun _ => rfl) fun _ => List.Subset.refl _
        · exact .id
      · refine (element?_modifyElement_eq_map _ host n _).trans ?_
        by_cases hn : n = t.size
        · rw [hn, element?, element?, data?_create, if_pos rfl, data?_size]
          rfl
        · rw [element?_create t _ hn]
          rfl

/-- **A change that names plainly keeps names plain.** -/
theorem apply_plainNames (h : t.PlainNames n) {c : Change} (hc : c.NamesPlainly n) :
    (t.apply c).PlainNames n := by
  have hnothing : t.element? n = (t.element? n).map id := by
    rw [Option.map_id, id]
  cases c with
  | create d =>
      by_cases hn : n = t.size
      · intro a ha
        have hdata : (t.apply (.create d)).data? n = some d := by
          rw [hn]
          exact (data?_create t d t.size).trans (if_pos rfl)
        have hnone : (t.apply (.create d)).view.attributes n = [] := by
          change (((t.apply (.create d)).element? n).map Element.attributes).getD [] = []
          rw [element?, hdata]
          cases d with
          | element e => exact hc
          | _ => rfl
        rw [hnone] at ha
        cases ha
      · exact h.edit .id ((element?_create t d hn).trans hnothing)
  | insert p c reference =>
      refine h.edit .id (Eq.trans ?_ hnothing)
      change (t.insertBefore p c reference).element? n = _
      rw [element?, data?_insertBefore]
      rfl
  | remove p c =>
      refine h.edit .id (Eq.trans ?_ hnothing)
      change (t.removeChild p c).element? n = _
      rw [element?, data?_removeChild]
      rfl
  | attachShadow host mode =>
      obtain ⟨f, hf, hedit⟩ := exists_edit_attachShadow t host n mode
      exact h.edit hf hedit
  | setAttribute m name value =>
      refine h.edit ?_ (element?_modifyElement_eq_map t m n _)
      split
      · next hm =>
          subst hm
          exact editsPlainly_setAttribute t m name value
      · exact .id
  | setAttributeIn m space name value =>
      refine h.edit .id (Eq.trans ?_ hnothing)
      exact element?_modifyElement_of_ne t _ (Ne.symm hc)
  | removeAttribute m name =>
      refine h.edit ?_ (element?_modifyElement_eq_map t m n _)
      split
      · exact .of_subset (fun _ => rfl) fun e => List.filter_subset_self _
      · exact .id
  | setLive m f =>
      refine h.edit ?_ (element?_modifyElement_eq_map t m n _)
      split
      · exact .of_subset (fun _ => rfl) fun e => List.Subset.refl _
      · exact .id
  | setDocument f => exact h.edit .id hnothing

/-- **Where all changes name plainly, all names are plain.** -/
theorem plainNames_of_changes {content : ContentType} {cs : List Change}
    (hcs : ∀ c ∈ cs, c.NamesPlainly n) : (cs.foldl apply (Tree.empty content)).PlainNames n := by
  have hrun : ∀ t : Tree, t.PlainNames n → (cs.foldl apply t).PlainNames n := by
    induction cs with
    | nil => exact fun t ht => ht
    | cons c cs ih =>
        obtain ⟨hc, hcs⟩ := List.forall_mem_cons.mp hcs
        exact fun t ht => ih hcs (t.apply c) (apply_plainNames ht hc)
  refine hrun (Tree.empty content) fun a ha => ?_
  have hnone : (Tree.empty content).element? n = none := by
    cases n <;> rfl
  rw [attributes_eq_nil hnone] at ha
  cases ha

/-! ### What matching sees -/

/-- **What removing does to tests for the name**, of an element with plain names only. -/
structure ForgetsRemoved (t : Tree) (n : NodeId) : Prop where
  /-- Where the name is one under which attributes are set, no test for it is passed any more. -/
  tests : ∀ name, t.attributeName n name = name → ∀ test : AttributeTest, test.name = name →
    (t.removeAttribute n name).view.matchesAttribute n test ≠ .ok true
  /-- Where it is not, nothing is removed. -/
  nothing : ∀ name, t.attributeName n name ≠ name → t.removeAttribute n name = t

/-- An edit that leaves the element as it is leaves the tree as it is. -/
theorem modifyElement_eq_self {f : Element → Element} (hf : ∀ e ∈ t.element? n, f e = e) :
    t.modifyElement n f = t := by
  unfold modifyElement modify
  refine congrArg (Tree.mk t.content t.document) (Array.ext_getElem? fun i => ?_)
  rw [Array.getElem?_modify]
  split
  · next hi =>
      subst hi
      cases hnode : t.nodes[n]? with
      | none => rfl
      | some node =>
          refine congrArg some ?_
          obtain ⟨data, _, _, _, _⟩ := node
          cases data with
          | element e =>
              have he : t.element? n = some e := by
                simp [element?, data?, get?, hnode]
              simp only [hf e he]
          | _ => rfl
  · rfl

/-- A plain name is its own qualified name. -/
theorem PlainNames.qualifiedName_eq (h : t.PlainNames n) {a : Attribute}
    (ha : a ∈ t.view.attributes n) : a.qualifiedName = a.localName := by
  rw [Attribute.qualifiedName, (h a ha).2.1]
  rfl

/-- A name that is spelled as names are set is that of an attribute only if the two are equal. -/
theorem PlainNames.attributeHasName_iff (h : t.PlainNames n) (hname : t.attributeName n name = name)
    {a : Attribute} (ha : a ∈ t.view.attributes n) :
    t.view.attributeHasName n name a = true ↔ a.localName = name := by
  obtain ⟨hspace, -, hlocal⟩ := h a ha
  rw [attributeName_eq] at hname hlocal
  unfold TreeView.attributeHasName
  rw [hspace]
  cases hhtml : t.view.isHtmlInHtml n with
  | false => simp
  | true =>
      rw [hhtml, if_pos rfl] at hname hlocal
      simp [Text.sameLetters_iff, hname, hlocal]

/-- **What was removed is not found**: no test of a name that is spelled as it is set passes any
longer. -/
theorem PlainNames.forgetsRemoved (h : t.PlainNames n) (hn : t.view.isElement n = true) :
    t.ForgetsRemoved n where
  tests name hname test htest hyes := by
    have hplain : (t.removeAttribute n name).PlainNames n :=
      apply_plainNames (c := .removeAttribute n name) h trivial
    have hspelled : (t.removeAttribute n name).attributeName n name = name :=
      (congrFun (attributeName_removeAttribute t n name) name).trans hname
    rw [TreeView.matchesAttribute] at hyes
    cases hrule : (t.removeAttribute n name).view.spaceRule n (.exactly none) test.space with
    | error err =>
        rw [hrule] at hyes
        cases hyes
    | ok rule =>
        rw [hrule] at hyes
        obtain ⟨a, ha, hpasses⟩ := List.any_eq_true.mp (Except.ok.inj hyes)
        simp only [Bool.and_eq_true] at hpasses
        have hlocal : a.localName = name := by
          rw [htest] at hpasses
          exact (hplain.attributeHasName_iff hspelled ha).mp hpasses.1.2
        have hqualified := hplain.qualifiedName_eq ha
        rw [attributes_removeAttribute hn] at ha
        simpa [hqualified, hlocal] using (List.mem_filter.mp ha).2
  nothing name hname := by
    refine modifyElement_eq_self fun e he => ?_
    have hall : e.attributes.filter (·.qualifiedName != name) = e.attributes := by
      refine List.filter_eq_self.mpr fun a ha => bne_iff_ne.mpr fun heq => hname ?_
      have ha : a ∈ t.view.attributes n := by
        change a ∈ ((t.element? n).map Element.attributes).getD []
        rw [he]
        exact ha
      rw [← heq, h.qualifiedName_eq ha]
      exact (h a ha).2.2
    exact congrArg (fun attributes => { e with attributes }) hall

/-- **Attributes after any row of changes.**  What is set is found under the name that it is set
under, and what is removed is not found.  Where no attribute of the element was set with a
namespace, no test for the removed name is passed, unless the name is spelled with capital letters
where names are set in small ones: then nothing is removed. -/
theorem attributes_of_changes (content : ContentType) (cs : List Change) (n : NodeId)
    (hn : (cs.foldl apply (Tree.empty content)).view.isElement n = true) :
    let t := cs.foldl apply (Tree.empty content)
    t.KeepsAttributes n ∧ ((∀ c ∈ cs, c.NamesPlainly n) → t.ForgetsRemoved n) :=
  ⟨keepsAttributes hn, fun hcs => (plainNames_of_changes hcs).forgetsRemoved hn⟩

/-- A `div` with two attributes, of which one is set under a capital letter. -/
def capitalBox : List Change :=
  [.create (.element (Element.named (some Namespace.html) "div")), .setAttribute 1 "B" "3",
    .setAttribute 1 "c" "4"]

/-- The capital letter finds nothing, and removing it removes nothing. -/
theorem attributes_of_changes_capitalBox :
    let t := capitalBox.foldl apply (Tree.empty .html)
    let test : AttributeTest := ⟨.implied, "B", none, none⟩
    t.view.isElement 1 = true ∧ (∀ c ∈ capitalBox, c.NamesPlainly 1) ∧
      t.attribute? 1 "b" = some "3" ∧ t.attribute? 1 "B" = none ∧
      (t.removeAttribute 1 "B").view.matchesAttribute 1 test = .ok true ∧
      (t.removeAttribute 1 "b").view.matchesAttribute 1 test = .ok false ∧
      t.KeepsAttributes 1 ∧ t.ForgetsRemoved 1 := by
  intro t test
  have hn : t.view.isElement 1 = true := by
    decide +kernel
  have hplain : ∀ c ∈ capitalBox, c.NamesPlainly 1 := by
    decide +kernel
  have hattributes : (t.removeAttribute 1 "B").view.attributes 1 =
      [{ space := none, namePrefix := none, localName := "b", value := "3" },
        { space := none, namePrefix := none, localName := "c", value := "4" }] := by
    decide +kernel
  have hhtml : (t.removeAttribute 1 "B").view.isHtmlInHtml 1 = true := by
    decide +kernel
  have hletters : Text.sameLetters "b" "B" = true := by
    rw [Text.sameLetters_iff, ← String.toList_inj, Text.toList_lower, Text.toList_lower]
    decide
  have hmatches : (t.removeAttribute 1 "B").view.matchesAttribute 1 test = .ok true := by
    simp [TreeView.matchesAttribute, TreeView.attributeHasName, hattributes, hhtml, hletters, test,
      TreeView.spaceRule, SpaceRule.accepts, AttributeTest.acceptsValue, Except.map]
  obtain ⟨hkeeps, hforgets⟩ := attributes_of_changes .html capitalBox 1 hn
  exact ⟨hn, hplain, by decide +kernel, by decide +kernel, hmatches, by decide +kernel, hkeeps,
    hforgets hplain⟩

end Tree

end Selectors

import Selectors.Proofs.Syntax.Standing

/-!
# Recorded texts are quoted

The reader cuts the texts that it records out of the source: that of a complex selector from its
first token to its last, and that of a pseudo-class or pseudo-element from its colon to where its
arguments end.  So each of them stands in the source in one piece, escapes and comments included.

* `Quoted` says that a text stands in the source.
* `ComplexNode.quotes_of_ofTokens` is the result, for every run of tokens.
-/

namespace Selectors

/-- The text stands in the source, in one piece. -/
def Quoted (source : List Char) (text : String) : Prop :=
  text.toList <:+: source

theorem quoted_slice (source : List Char) (start stop : Nat) :
    Quoted source (slice source start stop) := by
  have hcut : (source.drop start).take (stop - start) <:+: source :=
    (List.take_prefix _ _).isInfix.trans (List.drop_suffix start source).isInfix
  rwa [Quoted, slice, String.toList_ofList]

theorem quoted_sliceOf (source : List Char) (ts : List Token) :
    Quoted source (sliceOf source ts) := by
  unfold sliceOf
  split
  · exact quoted_slice source _ _
  · exact List.nil_infix

namespace Component

/-- The recorded text of a pseudo-class or pseudo-element. -/
def text? : Component → Option String
  | pseudoClass _ _ text | pseudoElement _ _ _ text => some text
  | _ => none

/-- The recorded text, if there is one, stands in the source. -/
def Quotes (source : List Char) (c : Component) : Prop :=
  ∀ text ∈ c.text?, Quoted source text

end Component

/-- All recorded texts stand in the source. -/
structure ComplexNode.Quotes (source : List Char) (node : ComplexNode) : Prop where
  whole : Quoted source node.text
  first : ∀ c ∈ node.first, c.Quotes source
  joined : ∀ step ∈ node.joined, ∀ c ∈ step.2, c.Quotes source

/-- A run is read like itself, with texts that stand in the source. -/
theorem Syntax.mirrors_quoted (source : List Char) :
    Mirrors source source Eq Eq Eq fun text text' => text = text' ∧ Quoted source text where
  nil h := h.symm
  cons := by
    rintro t r _ rfl
    exact ⟨t, r, rfl, rfl, rfl, rfl, fun _ => rfl⟩
  arguments := by
    rintro t _ r _ name heq -
    cases heq
    exact ⟨rfl, rfl, rfl⟩
  text := by
    rintro i j _ _ rfl rfl
    exact ⟨rfl, quoted_slice source i j⟩

namespace ComplexNode

variable {source : List Char} {ts : List Token} {node : ComplexNode} {relative : Bool}

/-- A component whose text is quoted quotes the source. -/
theorem quotes_of_alike {c c' : Component}
    (h : c.Alike Eq (fun text text' => text = text' ∧ Quoted source text) c') :
    c.Quotes source := by
  intro text htext
  cases h with
  | plain h =>
      cases c with
      | pseudoClass name args text => cases h
      | pseudoElement name args oneColon text => cases h
      | _ => cases htext
  | pseudoClass name _ h =>
      cases htext
      exact h.2
  | pseudoElement name oneColon _ h =>
      cases htext
      exact h.2

/-- **The texts in a member stand in the source.** -/
theorem quotes_of_ofTokens (hread : ofTokens source relative ts = .ok node) :
    node.Quotes source := by
  rw [ofTokens_eq_ok] at hread
  have hsame := read_alike (Syntax.mirrors_quoted source) relative (Eq.refl (Token.trim ts))
  rw [hread] at hsame
  cases hsame with
  | some h =>
      have hall : ∀ {cs : List Component},
          List.Forall₂ (Component.Alike _ _) cs cs → ∀ c ∈ cs, c.Quotes source :=
        fun hcs c hc => quotes_of_alike (List.forall₂_same.mp hcs c hc)
      refine ⟨?_, hall h.first, fun step hstep => ?_⟩
      · rw [text_of_read? hread]
        exact quoted_sliceOf source _
      · exact hall (List.forall₂_same.mp h.joined step hstep).2

/-- The texts in a list stand in the source. -/
theorem quotes_of_listOfTokens {nodes : List ComplexNode}
    (hread : listOfTokens source relative ts = .ok nodes) (hnode : node ∈ nodes) :
    node.Quotes source := by
  obtain ⟨m, -, hm⟩ := exists_of_mem_mapM hread hnode
  exact quotes_of_ofTokens hm

end ComplexNode

end Selectors

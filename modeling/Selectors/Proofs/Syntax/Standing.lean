import Selectors.Proofs.Token.Parts
import Selectors.Proofs.Syntax.Alike

/-!
# Recorded texts stand on their own

With every complex selector its text is recorded.  Read by itself that text gives the same selector
again and nothing else, whatever stood around it: the members of a list are cut where tokens begin
and end, so the same tokens are read, and the reader of selectors asks for their kinds only.  What
differs are the places of the tokens in the arguments of functions.

* `ComplexNode.moved` is a selector with all these places moved.
* `ComplexNode.mirrors_moved` relates the runs of the part to those of the whole text.
* `ComplexNode.exists_read_text` is the result.
-/

namespace Selectors

def Arguments.moved (d : Nat) (args : Arguments) : Arguments :=
  { args with tokens := args.tokens.map (Token.moved d) }

namespace Component

/-- The component with the tokens of its arguments moved on. -/
def moved (d : Nat) : Component → Component
  | pseudoClass name args text => pseudoClass name (args.map (Arguments.moved d)) text
  | pseudoElement name args oneColon text =>
    pseudoElement name (args.map (Arguments.moved d)) oneColon text
  | c => c

/-- A component that is alike up to moved arguments is the moved one. -/
theorem eq_moved_of_alike {d : Nat} {c c' : Component}
    (h : Alike (fun args args' => args = args'.moved d) Eq c c') : c = c'.moved d := by
  have hargs : ∀ {args args' : Option Arguments},
      Option.Rel (fun args args' => args = args'.moved d) args args' →
        args = args'.map (Arguments.moved d) := by
    intro args args' h
    cases h with
    | none => rfl
    | some h => exact congrArg some h
  cases h with
  | plain h => cases c <;> first | rfl | cases h
  | pseudoClass name h htext => rw [hargs h, htext, moved]
  | pseudoElement name oneColon h htext => rw [hargs h, htext, moved]

end Component

namespace ComplexNode

open Token

/-- The selector with the tokens of all arguments moved on. -/
def moved (d : Nat) (node : ComplexNode) : ComplexNode where
  leading := node.leading
  first := node.first.map (Component.moved d)
  joined := node.joined.map fun (mark, compound) => (mark, compound.map (Component.moved d))
  text := node.text

variable {stream part : TokenStream} {ts us : List Token} {d : Nat} {node node' : ComplexNode}
  {nodes : List ComplexNode} {relative : Bool} {text : String}

theorem eq_map_of_forall₂ {α : Type} {f : α → α} {xs ys : List α}
    (h : List.Forall₂ (fun x y => x = f y) xs ys) : xs = ys.map f := by
  rwa [← List.forall₂_eq_eq_eq, List.forall₂_map_right_iff]

/-- A complex selector that is alike up to moved arguments is the moved one, if its text is the
same. -/
theorem eq_moved_of_alike (h : Alike (fun args args' => args = args'.moved d) Eq node node')
    (htext : node.text = node'.text) : node = node'.moved d := by
  have hcompound : ∀ {cs cs' : List Component},
      List.Forall₂ (Component.Alike (fun args args' => args = args'.moved d) Eq) cs cs' →
        cs = cs'.map (Component.moved d) := fun h =>
    eq_map_of_forall₂ (h.imp fun _ _ => Component.eq_moved_of_alike)
  obtain ⟨leading, first, joined, text⟩ := node
  obtain ⟨leading', first', joined', text'⟩ := node'
  obtain ⟨hleading, hfirst, hjoined⟩ := h
  cases hleading
  cases htext
  have hfirst' : first = first'.map (Component.moved d) := hcompound hfirst
  have hjoined' : joined = joined'.map fun (mark, compound) =>
      (mark, compound.map (Component.moved d)) :=
    eq_map_of_forall₂ (hjoined.imp fun _ _ hx => Prod.ext hx.1 (hcompound hx.2))
  rw [hfirst', hjoined']
  rfl

/-- Only kinds say where arguments end. -/
theorem argumentTokens_moved (depth : Nat) (us : List Token) :
    Syntax.argumentTokens depth (us.map (Token.moved d)) =
      ((Syntax.argumentTokens depth us).1.map (Token.moved d),
        (Syntax.argumentTokens depth us).2.map (Token.moved d)) := by
  induction us generalizing depth with
  | nil => rfl
  | cons u us ih =>
      rw [List.map_cons, Syntax.argumentTokens, Syntax.argumentTokens, moved_kind]
      split
      · rfl
      · simp only [ih, List.map_cons]

/-- A run of tokens of the part is read as the same run in the whole text. -/
theorem mirrors_moved (hpart : stream.PartAt ts part d) :
    Syntax.Mirrors stream.source part.source
      (fun r u => r = u.map (Token.moved d) ∧
        ∀ t ∈ u, t.start ≤ part.source.length ∧ t.stop ≤ part.source.length)
      (fun i i' => i = i' + d ∧ i' ≤ part.source.length)
      (fun args args' => args = args'.moved d) Eq where
  nil := by
    rintro u ⟨hmap, -⟩
    exact List.map_eq_nil_iff.mp hmap.symm
  cons := by
    rintro t r u ⟨hmap, hinside⟩
    cases u with
    | nil => cases hmap
    | cons t' r' =>
        obtain ⟨rfl, rfl⟩ := List.cons_eq_cons.mp hmap
        have ht := hinside t' (List.mem_cons_self ..)
        exact ⟨t', r', rfl, rfl, ⟨rfl, ht.1⟩, ⟨rfl, ht.2⟩,
          fun _ => ⟨rfl, fun w hw => hinside w (List.mem_cons_of_mem t' hw)⟩⟩
  arguments := by
    rintro t t' r r' name ⟨hmap, hinside⟩ -
    obtain ⟨rfl, rfl⟩ := List.cons_eq_cons.mp hmap
    have ht := hinside t' (List.mem_cons_self ..)
    have hparts := Syntax.argumentTokens_append 0 r'
    unfold Syntax.readArguments
    rw [argumentTokens_moved]
    generalize Syntax.argumentTokens 0 r' = parts at hparts ⊢
    obtain ⟨inside, rest⟩ := parts
    have hinside' : ∀ u ∈ inside, u.start ≤ part.source.length ∧ u.stop ≤ part.source.length :=
      fun u hu => hinside u (by simp [← hparts, hu])
    have hargs : sliceOf stream.source (inside.map (Token.moved d)) = sliceOf part.source inside :=
      hpart.sliceOf_eq fun u hu => (hinside' u hu).2
    cases rest with
    | nil =>
        refine ⟨?_, ?_, rfl, fun u hu => absurd hu List.not_mem_nil⟩
        · rw [Arguments.moved]
          simp only [List.map_nil, hargs]
        · simp only [List.map_nil, List.getLast?_map]
          cases hlast : inside.getLast? with
          | none => exact ⟨rfl, ht.2⟩
          | some last => exact ⟨rfl, (hinside' last (List.mem_of_getLast? hlast)).2⟩
    | cons close rest =>
        have hclose : ∀ u ∈ close :: rest,
            u.start ≤ part.source.length ∧ u.stop ≤ part.source.length := fun u hu =>
          hinside u (by
            rw [← hparts]
            exact List.mem_cons_of_mem t' (List.mem_append_right inside hu))
        refine ⟨?_, ⟨rfl, (hclose close (List.mem_cons_self ..)).2⟩, rfl, fun u hu => ?_⟩
        · rw [Arguments.moved]
          simp only [List.map_cons, hargs]
        · exact hclose u (List.mem_cons_of_mem close hu)
  text := by
    rintro i j i' j' ⟨rfl, -⟩ ⟨rfl, hj⟩
    exact hpart.slice_eq i' hj

/-- No complex selector is read from nothing. -/
theorem read?_nil (source : List Char) (relative : Bool) : read? source relative [] = none := by
  cases relative <;> rfl

/-- The text of a complex selector is what its tokens span. -/
theorem text_of_read? {source : List Char} (h : read? source relative ts = some node) :
    node.text = sliceOf source ts := by
  simp only [read?, Option.bind_eq_bind, Option.bind_eq_some_iff, Option.pure_def] at h
  obtain ⟨_, -, _, -, _, -, heq⟩ := h
  cases heq
  rfl

/-- A member is read from its trimmed tokens. -/
theorem ofTokens_eq_ok {source : List Char} :
    ofTokens source relative ts = .ok node ↔ read? source relative (trim ts) = some node := by
  unfold ofTokens
  cases read? source relative (trim ts) <;> simp

/-- **A recorded text reads as the selector it was recorded for**, and as nothing else: only the
places of the tokens in its arguments are others. -/
theorem exists_read_text (h : TokenStream.ofText text = .ok stream)
    (hnodes : listOfTokens stream.source relative stream.tokens = .ok nodes)
    (hnode : node ∈ nodes) :
    ∃ part node' d, TokenStream.ofText node.text = .ok part ∧
      listOfTokens part.source relative part.tokens = .ok [node'] ∧ node = node'.moved d := by
  obtain ⟨m, hm, hread⟩ := exists_of_mem_mapM hnodes hnode
  rw [ofTokens_eq_ok] at hread
  have hne : trim m ≠ [] := by
    intro hnil
    rw [hnil, read?_nil] at hread
    cases hread
  obtain ⟨part, d, hpart, hat, hsplit, htrim⟩ := TokenStream.exists_part_of_member h hm hne
  have htext := text_of_read? hread
  have halike := read_alike (mirrors_moved hat) relative
    ⟨hat.tokens, fun u hu => ⟨by have := hat.inside u hu; omega, (hat.inside u hu).2⟩⟩
  rw [hread] at halike
  cases hread' : read? part.source relative part.tokens with
  | none =>
      rw [hread'] at halike
      cases halike
  | some node' =>
      rw [hread'] at halike
      cases halike with
      | some halike =>
          refine ⟨part, node', d, ?_, ?_, eq_moved_of_alike halike ?_⟩
          · rw [htext]
            exact hpart
          · have hmember : ofTokens part.source relative part.tokens = .ok node' := by
              rw [ofTokens_eq_ok, htrim, hread']
            rw [listOfTokens, hsplit, List.mapM_cons, hmember]
            rfl
          · rw [htext, text_of_read? hread', hat.tokens]
            exact hat.sliceOf_eq fun u hu => (hat.inside u hu).2

/-- The second member of a list, with a leading combinator and a comment: its text is read back to
the same components, at other places. -/
theorem exists_read_text_behindComma :
    let stream := TokenStream.read ":is(a) , > b:not( c/**/d"
    ∃ nodes node, listOfTokens stream.source true stream.tokens = .ok nodes ∧
      nodes[1]? = some node ∧ ∃ part node' d, TokenStream.ofText "> b:not( c/**/d" = .ok part ∧
        listOfTokens part.source true part.tokens = .ok [node'] ∧ node = node'.moved d := by
  intro stream
  have hstream : TokenStream.ofText ":is(a) , > b:not( c/**/d" = .ok stream := by
    decide +kernel
  let nodes := (listOfTokens stream.source true stream.tokens).toOption.get (by decide +kernel)
  have hnodes : listOfTokens stream.source true stream.tokens = .ok nodes := by
    decide +kernel
  have htext : nodes[1]?.map ComplexNode.text = some "> b:not( c/**/d" := by
    decide +kernel
  obtain ⟨node, hnode, htext⟩ := Option.map_eq_some_iff.mp htext
  have hread := exists_read_text hstream hnodes (List.mem_of_getElem? hnode)
  rw [htext] at hread
  exact ⟨nodes, node, hnodes, hnode, hread⟩

end ComplexNode

end Selectors

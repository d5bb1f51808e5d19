import Selectors.Proofs.Query.States
import Selectors.Proofs.Token.Escaping

/-!
# Every name can be asked for

An id or a class may begin with a digit, hold blanks or what means something else in selectors.
Written with an escape for each character it is one name all the same, so there is a selector for
it, and the selector matches the elements with that id, or with that class among their classes, and
no other node.  Left out are the empty name, because no token is empty, and names that hold the
character with the number zero, which no escape stands for.

* `SelectsElements` says which elements a text matches, and `selectsElements_of_holdsTest` that
  a text with one test matches those that pass it.
* `Expresses` is what a text that writes a name comes to, and `expresses_of_escaped` the result.
-/

namespace Selectors

/-- The text compiles and matches the elements with a property and no other node, in each tree,
whatever the engine was asked before, and in strict calls as in lenient ones. -/
structure SelectsElements (text : String) (P : TreeView → NodeId → Prop) : Prop where
  compiles : ∃ s, compile text = .ok s
  matched : ∀ (e : Engine), e.Reached → ∀ (t : TreeView) (settings : Settings) (n : NodeId),
    ∃ b, e.verdict t settings text n = .ok b ∧ (b = true ↔ t.isElement n = true ∧ P t n)

/-- **A text that is one test of elements** matches those that pass it, if the test asks nothing
else and no other node passes it. -/
theorem selectsElements_of_holdsTest {text : String} {s : CompiledSelector} {test : SimpleSelector}
    {passes : TreeView → NodeId → Bool} {P : TreeView → NodeId → Prop}
    (hs : compile text = .ok s) (htest : s.arena.HoldsTest test s.root)
    (hsimple : ∀ (m : Matcher) sub σ n,
      m.matchSimple sub σ n test = Pure.pure (passes m.tree n))
    (hfeature : ∀ (m : Matcher) sub σ isHost isScope n,
      m.matchFeature sub σ isHost isScope n test = Pure.pure false)
    (hpasses : ∀ t n, passes t n = true ↔ P t n) : SelectsElements text P where
  compiles := ⟨s, hs⟩
  matched e he t settings n := by
    let m := (Query.of t s n settings).matcher
    have hitself : m.matchesItself n = Pure.pure (t.isElement n && passes t n) := by
      cases hn : t.isElement n with
      | true =>
          rw [Matcher.matchesItself_of_element (m := m) hn,
            Matcher.matchesNode_of_holdsTest (m := m) htest hn, hsimple]
          rfl
      | false =>
          have hnode := Matcher.matchesNode_of_featureless (m := m) htest hn
            fun sub σ isHost isScope => hfeature m sub σ isHost isScope n
          unfold Matcher.matchesItself
          split
          · exact hnode
          · exact hnode
          · rfl
    have hrun : runFrom (m.matchesItself n) {} = (.ok (t.isElement n && passes t n), {}) := by
      rw [hitself, runFrom_pure]
    exact ⟨_, he.result_of_run hs hrun, by rw [Bool.and_eq_true, hpasses]⟩

/-- What a text that writes a name comes to. -/
structure Expresses (v text : String) : Prop where
  /-- By itself it is one token, the name. -/
  ident : TokenStream.ofText text =
    .ok ⟨text.toList, [⟨.ident v, 0, text.toList.length⟩]⟩
  /-- Behind a hash sign it is one token, an id. -/
  hash : TokenStream.ofText ("#" ++ text) =
    .ok ⟨'#' :: text.toList, [⟨.hash v .id, 0, text.toList.length + 1⟩]⟩
  byId : SelectsElements ("#" ++ text) fun t n => t.attribute? n "id" = some v
  byClass : SelectsElements ("." ++ text) fun t n =>
    ∃ value, t.attribute? n "class" = some value ∧ v ∈ Text.words value

variable {v text : String}

/-- A text that is read as one simple selector compiles to the test that it asks for. -/
theorem exists_compile_of_readSimple? {stream : TokenStream} {t : Token} {r : List Token}
    {c : Component} {test : SimpleSelector} (hstream : TokenStream.ofText text = .ok stream)
    (htokens : stream.tokens = t :: r) (hsplit : Token.splitList (t :: r) = [t :: r])
    (htrim : Token.trim (t :: r) = t :: r) (hbegins : Syntax.endsCompound (t :: r) = false)
    (hplain : Syntax.startsType (t :: r) = false)
    (hread : Syntax.readSimple? stream.source t r = some (c, []))
    (hcomponent : ∀ nested ctx whole, runFrom (Compile.component nested ctx whole {} c) {} =
      (.ok { simples := [test] }, {})) :
    ∃ s, compile text = .ok s ∧ s.arena.HoldsTest test s.root := by
  have hnode := ComplexNode.read?_of_readSimple? hbegins hplain hread
  have hlist := ComplexNode.listOfTokens_of_read? hsplit htrim hnode
  exact exists_compile_of_component hstream (htokens ▸ hlist) fun nested ctx =>
    hcomponent nested ctx _

/-- A text that writes a name asks for it. -/
theorem Token.Escaped.expresses (h : Token.Escaped v.toList text.toList) (hne : v ≠ "")
    (hzero : '\x00' ∉ v.toList) : Expresses v text := by
  have hhash := TokenStream.ofText_hash h hne hzero
  have hdot := TokenStream.ofText_dot h hne hzero
  obtain ⟨s, hs, htest⟩ :=
    exists_compile_of_readSimple? hhash rfl rfl rfl rfl rfl rfl fun _ _ _ => rfl
  obtain ⟨s', hs', htest'⟩ :=
    exists_compile_of_readSimple? hdot rfl rfl rfl rfl rfl rfl fun _ _ _ => rfl
  have hid : ∀ t n, TreeView.hasId t n v = true ↔ t.attribute? n "id" = some v := fun _ _ =>
    beq_iff_eq
  have hclass : ∀ t n, TreeView.hasClass t n v = true ↔
      ∃ value, t.attribute? n "class" = some value ∧ v ∈ Text.words value := fun t n => by
    simp [TreeView.hasClass, Option.any_eq_true]
  exact ⟨TokenStream.ofText_of_escaped h hne hzero, hhash,
    selectsElements_of_holdsTest hs htest (fun _ _ _ _ => rfl) (fun _ _ _ _ _ _ => rfl) hid,
    selectsElements_of_holdsTest hs' htest' (fun _ _ _ _ => rfl) (fun _ _ _ _ _ _ => rfl) hclass⟩

end Selectors

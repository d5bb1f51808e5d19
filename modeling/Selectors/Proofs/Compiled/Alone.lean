import Selectors.Proofs.Compiled.Compiling

/-!
# Compiling one test

A complex selector that is one simple selector is stored as a compound with one test, a complex
selector with that compound and nothing joined to it, and a list with that member.  What the test
asks for is stored before them.

* `Arena.HoldsTest` says that a list is one test and nothing else.
* `Compile.complex_of_component` and `Compile.holdsTest_of_component` are what is stored, and
  `exists_compile_of_component` is about a whole text.
-/

namespace Selectors

namespace Arena

variable {a a' : Arena} {s : SimpleSelector} {l : ListId}

/-- The list has one member, which is one test and nothing else. -/
structure HoldsTest (a : Arena) (s : SimpleSelector) (l : ListId) : Prop where
  stored : l.index < a.lists.size
  member : ∃ c d, (a.list l).complexes = [c] ∧
    c.index < a.complexes.size ∧ (a.complex c).first = d ∧ (a.complex c).joined = [] ∧
    d.index < a.compounds.size ∧ (a.compound d).pseudoElement = none ∧
      (a.compound d).inOrder = [s]

/-- A test alone in a list stays so. -/
theorem HoldsTest.of_grows (h : a.HoldsTest s l) (hgrows : a.Grows a') : a'.HoldsTest s l := by
  obtain ⟨hstored, c, d, hlist, hc, hfirst, hjoined, hd, hpseudo, horder⟩ := h
  refine ⟨Nat.lt_of_lt_of_le hstored hgrows.lists, c, d, ?_⟩
  rw [hgrows.list hstored, hgrows.complex hc, hgrows.compound hd]
  exact ⟨hlist, Nat.lt_of_lt_of_le hc hgrows.complexes, hfirst, hjoined,
    Nat.lt_of_lt_of_le hd hgrows.compounds, hpseudo, horder⟩

end Arena

namespace Compile

variable {nested : ListCompiler} {ctx : CompileContext} {a b : Arena} {s : SimpleSelector}
  {c : Component} {whole : String}

/-- The compound with one test, as it is stored. -/
def loneCompound (a : Arena) (s : SimpleSelector) : Compound where
  simples := [s]
  pseudoElement := none
  hasNestedHas := [s].any fun s => a.bearsHas s && !isHas s
  containsHas := [s].any a.bearsHas
  matchOrder := matchOrder a [s]

/-- A lone test is matched by itself. -/
theorem inOrder_loneCompound (a : Arena) (s : SimpleSelector) :
    (loneCompound a s).inOrder = [s] := by
  have horder : matchOrder a [s] = [0] := by
    simp [matchOrder]
  unfold Compound.inOrder
  rw [show (loneCompound a s).matchOrder = [0] from horder]
  rfl

/-- A component that makes one test makes a compound of it. -/
theorem compound_of_component
    (hrun : runFrom (component nested ctx whole {} c) a = (.ok { simples := [s] }, b)) :
    runFrom (compound nested ctx whole true [c]) a =
      (.ok (⟨b.compounds.size⟩, []),
        { b with compounds := b.compounds.push (loneCompound b s) }) := by
  unfold compound
  rw [List.foldlM_cons, runFrom_bind_ok ((runFrom_bind_ok hrun).trans rfl)]
  rfl

/-- Where nothing is joined each candidate is tested. -/
theorem direction_nil (a : Arena) (relative : Bool) (d : CompoundId) :
    direction a relative d [] = .ascend := by
  simp [direction]

/-- A component that makes one test makes a complex selector of it. -/
theorem complex_of_component
    (hrun : runFrom (component nested ctx whole {} c) a = (.ok { simples := [s] }, b)) :
    runFrom (complex nested ctx false ⟨none, [c], [], whole⟩) a =
      (.ok ⟨b.complexes.size⟩,
        { b with
          complexes := b.complexes.push ⟨none, ⟨b.compounds.size⟩, [], whole, .ascend⟩
          compounds := b.compounds.push (loneCompound b s) }) := by
  have hleading : runFrom ((none : Option CombinatorMark).mapM combinator) a = (.ok none, a) := rfl
  have hmarks : ∀ f : CombinatorMark × List Component → Compile (Combinator × List Component),
      runFrom ([].mapM f) a = (.ok [], a) := fun _ => rfl
  have hcompound := compound_of_component hrun
  have hjoined : ∀ b', runFrom (joined nested ctx whole []) b' = (.ok [], b') := fun _ => rfl
  unfold complex
  rw [runFrom_bind_ok hleading, runFrom_bind_ok (hmarks _)]
  dsimp only [List.isEmpty_nil]
  rw [runFrom_bind_ok hcompound]
  dsimp only
  rw [runFrom_bind_ok (hjoined _), runFrom_bind_ok (runFrom_get _), List.append_nil, direction_nil]
  rfl

/-- **A test alone** is stored behind what it asks for. -/
theorem holdsTest_of_component
    (hrun : runFrom (component nested ctx whole {} c) a = (.ok { simples := [s] }, b)) :
    ∃ l b', runFrom ([⟨none, [c], [], whole⟩].mapM (complex nested ctx false) >>= pushList) a =
      (.ok l, b') ∧ b.Grows b' ∧ b'.HoldsTest s l := by
  let C : ComplexSelector := ⟨none, ⟨b.compounds.size⟩, [], whole, .ascend⟩
  let b₁ : Arena := { b with compounds := b.compounds.push (loneCompound b s) }
  let b₂ : Arena := { b₁ with complexes := b₁.complexes.push C }
  let L : SelectorList := ⟨[⟨b.complexes.size⟩], [⟨b.complexes.size⟩].any b₂.complexBearsHas⟩
  let b₃ : Arena := { b₂ with lists := b₂.lists.push L }
  have hcomplex : runFrom (complex nested ctx false ⟨none, [c], [], whole⟩) a =
      (.ok ⟨b.complexes.size⟩, b₂) := complex_of_component hrun
  have hmembers : runFrom ([⟨none, [c], [], whole⟩].mapM (complex nested ctx false)) a =
      (.ok [⟨b.complexes.size⟩], b₂) := by
    rw [List.mapM_cons, runFrom_bind_ok hcomplex]
    rfl
  refine ⟨⟨b.lists.size⟩, b₃, (runFrom_bind_ok hmembers).trans rfl, ?_, ?_⟩
  · have hcompound := b.grows_pushCompound (loneCompound b s)
    exact (hcompound.trans (b₁.grows_pushComplex C)).trans (b₂.grows_pushList L)
  · have hlist : b₃.list ⟨b.lists.size⟩ = L := by
      simp [b₃, b₂, b₁, Arena.list]
    have hmember : b₃.complex ⟨b.complexes.size⟩ = C := by
      simp [b₃, b₂, b₁, Arena.complex]
    have hcompound : b₃.compound ⟨b.compounds.size⟩ = loneCompound b s := by
      simp [b₃, b₂, b₁, Arena.compound]
    refine ⟨by simp [b₃, b₂, b₁], ⟨b.complexes.size⟩, ⟨b.compounds.size⟩, ?_⟩
    rw [hlist, hmember, hcompound]
    exact ⟨rfl, by simp [b₃, b₂, b₁], rfl, rfl, by simp [b₃, b₂, b₁], rfl, inOrder_loneCompound b s⟩

end Compile

/-- **A text that is one test** compiles to that test alone. -/
theorem exists_compile_of_component {text whole : String} {stream : TokenStream} {c : Component}
    {s : SimpleSelector} (hstream : TokenStream.ofText text = .ok stream)
    (hread : ComplexNode.listOfTokens stream.source false stream.tokens =
      .ok [⟨none, [c], [], whole⟩])
    (hcomponent : ∀ nested ctx, runFrom (Compile.component nested ctx whole {} c) {} =
      (.ok { simples := [s] }, {})) :
    ∃ cs, compile text = .ok cs ∧ cs.arena.HoldsTest s cs.root := by
  obtain ⟨l, b, hrun, -, htest⟩ := Compile.holdsTest_of_component
    (hcomponent (Compile.list stream.tokens.length) { source := stream.source })
  exact ⟨⟨text, b, l⟩, compile_eq_ok_iff.mpr ⟨stream, _, hstream, hread, hrun, rfl⟩, htest⟩

end Selectors

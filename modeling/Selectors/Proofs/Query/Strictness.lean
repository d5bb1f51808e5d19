import Selectors.Proofs.Query.Memory

/-!
# Strict and lenient calls

A strict call fails with the first thing that is known and not evaluated, and a lenient one tells of
it and goes on.  Up to there the two do the same, so that a lenient call that tells nothing gives
the answer of the strict one, and else the first thing that it tells is the failure of the strict
one.  What is told twice is delivered once.

Since calls answer as if they remembered nothing, the two are compared without a memory.  There the
order in which nodes are asked is the same, and nothing is left out because it was asked before.

* `Matcher.Sharpens` relates a strict computation to a lenient one, and
  `Matcher.parallel_sharpens` says that every step keeps the relation.
* `Answer.Sharpens` is what remains of it for answers, and `Engine.strict_calls_sharpen` is the
  result for the four calls.
-/

namespace Selectors

/-- What was told is told once: the messages are distinct, and all come from one component. -/
structure MatchMemory.TellsOnce (s : MatchMemory) : Prop where
  component : ∀ w ∈ s.warnings, w.component = "Selector"
  distinct : (s.warnings.map Warning.message).Nodup

/-- Telling of something in the words of the selector keeps messages distinct: what has the same
message is the same warning. -/
theorem MatchMemory.TellsOnce.tell {s : MatchMemory} (hs : s.TellsOnce) (message : String) :
    (s.tell [{ component := "Selector", message }]).TellsOnce := by
  rw [MatchMemory.tell_one]
  split
  · exact hs
  · rename_i hnew
    rw [List.contains_iff_mem] at hnew
    refine ⟨fun w hw => ?_, ?_⟩
    · rcases List.mem_append.mp hw with hw | hw
      · exact hs.component w hw
      · rw [List.mem_singleton.mp hw]
    · rw [List.map_append, List.nodup_append]
      refine ⟨hs.distinct, List.nodup_singleton _, fun a ha b hb hab => hnew ?_⟩
      obtain ⟨w, hw, rfl⟩ := List.mem_map.mp ha
      rw [List.map_cons, List.map_nil, List.mem_singleton] at hb
      have hcomponent := hs.component w hw
      rcases w with ⟨component, message'⟩
      cases hcomponent
      cases hab.trans hb
      exact hw

namespace Matcher

/-- The computation `y` is a strict way of doing what `x` does. The lenient `x` only adds to what
was told, each message once. Where it tells nothing, `y` does the same, and where it tells first of
`w`, `y` fails with that. -/
structure Sharpens (α : Type) (x y : Matching α) : Prop where
  adds : ∀ s : MatchMemory, s.warnings <+: (runFrom x s).2.warnings
  once : ∀ s : MatchMemory, s.TellsOnce → (runFrom x s).2.TellsOnce
  quiet : ∀ s : MatchMemory, s.warnings = [] → (runFrom x s).2.warnings = [] →
    runFrom y s = runFrom x s
  first : ∀ s : MatchMemory, s.warnings = [] → ∀ w ws, (runFrom x s).2.warnings = w :: ws →
    ∃ e : SelectorError, e.Unevaluated ∧ e.message = w.message ∧ (runFrom y s).1 = .error e

variable {m : Matcher}

variable {α β : Type} {x y : Matching α} {f g : α → Matching β}

/-- What a row of two tells begins with what its first part tells. -/
theorem warnings_prefix_bind
    (hf : ∀ a (s : MatchMemory), s.warnings <+: (runFrom (f a) s).2.warnings)
    (s : MatchMemory) : (runFrom x s).2.warnings <+: (runFrom (x >>= f) s).2.warnings := by
  rw [runFrom_bind]
  rcases runFrom x s with ⟨e | a, s'⟩
  · exact List.prefix_refl _
  · exact hf a s'

namespace Sharpens

/-- A computation that tells nothing is its own strict way. -/
theorem of_silent (h : ∀ s : MatchMemory, (runFrom x s).2.warnings = s.warnings) :
    Sharpens α x x where
  adds s := ⟨[], by rw [List.append_nil, h]⟩
  once s hs := ⟨(h s).symm ▸ hs.component, (h s).symm ▸ hs.distinct⟩
  quiet _ _ _ := rfl
  first s hs w ws hw := by
    rw [h, hs] at hw
    cases hw

/-- **A row of two**: if the first part tells something, the strict way fails there, and what it
told of stands first in the end. -/
theorem bind (hxy : Sharpens α x y) (hfg : ∀ a, Sharpens β (f a) (g a)) :
    Sharpens β (x >>= f) (y >>= g) where
  adds s := (hxy.adds s).trans (warnings_prefix_bind (fun a => (hfg a).adds) s)
  once s hs := by
    rw [runFrom_bind]
    have hx := hxy.once s hs
    rcases hrun : runFrom x s with ⟨e | a, s'⟩
    · rw [hrun] at hx
      exact hx
    · rw [hrun] at hx
      exact (hfg a).once s' hx
  quiet s hs hnone := by
    have hprefix := warnings_prefix_bind (x := x) (fun a => (hfg a).adds) s
    rw [hnone, List.prefix_nil] at hprefix
    rw [runFrom_bind] at hnone
    rw [runFrom_bind, runFrom_bind, hxy.quiet s hs hprefix]
    rcases hrun : runFrom x s with ⟨e | a, s'⟩
    · rfl
    · rw [hrun] at hnone hprefix
      exact (hfg a).quiet s' hprefix hnone
  first s hs w ws hw := by
    have hprefix := warnings_prefix_bind (x := x) (fun a => (hfg a).adds) s
    rw [hw] at hprefix
    cases htold : (runFrom x s).2.warnings with
    | cons v vs =>
        rw [htold, List.cons_prefix_cons] at hprefix
        obtain ⟨rfl, -⟩ := hprefix
        obtain ⟨e, he, hmessage, hfails⟩ := hxy.first s hs v vs htold
        exact ⟨e, he, hmessage, result_bind_error hfails⟩
    | nil =>
        rw [runFrom_bind] at hw
        rw [runFrom_bind, hxy.quiet s hs htold]
        rcases hrun : runFrom x s with ⟨e | a, s'⟩
        · rw [hrun] at hw htold
          dsimp only at hw htold
          rw [htold] at hw
          cases hw
        · rw [hrun] at hw htold
          exact (hfg a).first s' htold w ws hw

end Sharpens

/-- Meeting what is not evaluated: the lenient way tells of it unless it did before, and the strict
way fails. -/
theorem sharpens_unsupported (hlenient : m.strict = false) {m' : Matcher}
    (hstrict : m'.strict = true)
    {e : SelectorError} (he : e.Unevaluated) :
    Sharpens Bool (m.unsupported e) (m'.unsupported e) := by
  have hrun : ∀ s, runFrom (m.unsupported e) s =
      (.ok false, s.tell [{ component := "Selector", message := e.message }]) :=
    settles_unsupported hlenient e
  have hrun' : ∀ s, runFrom (m'.unsupported e) s = (.error e, s) := by
    intro s
    unfold unsupported
    rw [hstrict]
    rfl
  constructor
  · intro s
    rw [hrun, MatchMemory.tell_one]
    split
    · exact List.prefix_refl _
    · exact List.prefix_append _ _
  · intro s hs
    rw [hrun]
    exact hs.tell e.message
  · intro s hs hnone
    rw [hrun, MatchMemory.tell_one, hs] at hnone
    cases hnone
  · intro s hs w ws hw
    rw [hrun, MatchMemory.tell_one, hs] at hw
    cases hw
    exact ⟨e, he, rfl, congrArg Prod.fst (hrun' s)⟩

/-- **Every step keeps the relation** between the strict and the lenient matcher, where nothing is
remembered. -/
theorem parallel_sharpens (hlenient : m.strict = false) (hforgets : m.remembers = false) :
    m.Parallel m.scope true m.remembers Sharpens where
  same := Or.inl rfl
  pure a := Sharpens.of_silent fun _ => rfl
  bind := Sharpens.bind
  state n s _ := by
    rw [matchState_of_forgetful hforgets,
      matchState_of_forgetful (m := m.tuned m.scope true m.remembers) hforgets]
    exact Sharpens.of_silent fun _ => rfl
  unsupported _ he := sharpens_unsupported hlenient rfl he
  fail _ := fun _ => Sharpens.of_silent fun _ => rfl

/-- What a query asks, strict and lenient. -/
theorem members_sharpen (hlenient : m.strict = false) (hforgets : m.remembers = false) :
    m.MembersAlike m.scope true m.remembers Sharpens := by
  have hparallel := parallel_sharpens hlenient hforgets
  have hinside := hparallel.nested (fun q x y hxy => by
    rw [answerOnce_of_forgetful hforgets,
      answerOnce_of_forgetful (m := m.tuned m.scope true m.remembers) hforgets]
    exact hxy) m.arena.listCount
  exact
    { complex := fun id _ n => hparallel.matchComplex_of_alike hinside none m.shadow id n
      compound := fun _ _ _ d _ n => hparallel.matchCompound_of_alike hinside m.shadow d n }

end Matcher

namespace Answer

/-- A strict answer goes with a lenient one: it is the same where the lenient call tells nothing,
and else the failure that it tells of first.  No message is told twice. -/
structure Sharpens {α : Type} (lenient strict : Answer α) : Prop where
  quiet : lenient.warnings = [] → strict.result = lenient.result
  first : ∀ w ws, lenient.warnings = w :: ws →
    ∃ e : SelectorError, e.Unevaluated ∧ e.message = w.message ∧ strict.result = .error e
  distinct : (lenient.warnings.map Warning.message).Nodup

/-- What is made of answers sharpens as the answers do. -/
theorem Sharpens.map {α β : Type} {lenient strict : Answer α} (h : lenient.Sharpens strict)
    (f : α → β) : (lenient.map f).Sharpens (strict.map f) where
  quiet hnone := congrArg (Except.map f) (h.quiet hnone)
  first w ws hw := by
    obtain ⟨e, he, hmessage, hfails⟩ := h.first w ws hw
    exact ⟨e, he, hmessage, congrArg (Except.map f) hfails⟩
  distinct := h.distinct

end Answer

/-- Matching that sharpens gives answers that sharpen. -/
theorem Matcher.Sharpens.answer {α : Type} {x y : Matching α} (h : Matcher.Sharpens α x y) :
    (Engine.answer x).Sharpens (Engine.answer y) where
  quiet hnone := congrArg Prod.fst (h.quiet {} rfl hnone)
  first w ws hw := h.first {} rfl w ws hw
  distinct := (h.once {} ⟨fun _ hw => absurd hw List.not_mem_nil, List.nodup_nil⟩).distinct

namespace Engine

variable {t : Tree} {e e' : Engine}

/-- One question asked strictly and leniently. -/
theorem run_sharpens (ht : t.Proper) (he : e.Reached) (he' : e'.Reached) (readers : Readers)
    (text : String) (n : NodeId) (target : Target) :
    (e.run t.view { strict := false, readers } text n target).1.Sharpens
      (e'.run t.view { strict := true, readers } text n target).1 := by
  rw [he.run_eq_answerAnew ht, he'.run_eq_answerAnew ht, answerAnew, answerAnew]
  cases Selectors.compile text with
  | error err =>
      exact
        { quiet := fun _ => rfl
          first := fun w ws hw => absurd hw (List.cons_ne_nil w ws).symm
          distinct := List.nodup_nil }
  | ok s =>
      let q := (Query.of t.view s n { strict := false, readers }).anew
      have hparallel := Matcher.parallel_sharpens (m := q.matcher) rfl rfl
      exact (hparallel.find (Matcher.members_sharpen rfl rfl) target).answer

/-- **Strict and lenient calls** do the same up to the first thing that is not evaluated: each of
the four calls fails strictly with what it tells of first, and answers the same where it tells
nothing, with any readers. -/
theorem strict_calls_sharpen (ht : t.Proper) (he : e.Reached) (he' : e'.Reached)
    (readers : Readers) (text : String) (n : NodeId) :
    (e.matchesNode t.view { strict := false, readers } text n).1.Sharpens
        (e'.matchesNode t.view { strict := true, readers } text n).1 ∧
      (e.closest t.view { strict := false, readers } text n).1.Sharpens
        (e'.closest t.view { strict := true, readers } text n).1 ∧
      (e.queryFirst t.view { strict := false, readers } text n).1.Sharpens
        (e'.queryFirst t.view { strict := true, readers } text n).1 ∧
      (e.queryAll t.view { strict := false, readers } text n).1.Sharpens
        (e'.queryAll t.view { strict := true, readers } text n).1 := by
  have hrun := run_sharpens ht he he' readers text n
  exact ⟨(hrun .itself).map _, (hrun .nearest).map _, (hrun .first).map _, hrun .all⟩

/-- In a query with the unsupported `:blank` the lenient call finds both paragraphs, and the strict
one fails with the message about it. -/
theorem strict_calls_sharpen_attachedBox :
    (queryAll {} Tree.attachedBox.view { strict := false } ":has(:not(:blank)) > p" 0).1.result =
        .ok [2, 3] ∧
      ∃ err : SelectorError, err.message = "Unsupported pseudo-class :blank" ∧
        (queryAll {} Tree.attachedBox.view { strict := true } ":has(:not(:blank)) > p" 0).1.result =
          .error err := by
  have hall : (queryAll {} Tree.attachedBox.view { strict := false } ":has(:not(:blank)) > p"
      0).1.result = .ok [2, 3] := by
    decide +kernel
  have htold : (queryAll {} Tree.attachedBox.view { strict := false } ":has(:not(:blank)) > p"
      0).1.warnings =
        [{ component := "Selector", message := "Unsupported pseudo-class :blank" }] := by
    decide +kernel
  obtain ⟨-, -, -, hsharpens⟩ :=
    strict_calls_sharpen Tree.attachedBox_proper .new .new {} ":has(:not(:blank)) > p" 0
  obtain ⟨err, -, hmessage, hfails⟩ := hsharpens.first _ _ htold
  exact ⟨hall, err, hmessage, hfails⟩

end Engine

end Selectors

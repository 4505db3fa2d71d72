import TensorGraph.Proofs.Graph.Substitution

/-!
# Replacements that close a cycle

A replacement redirects all readers of a node at once, so that a cycle may lead through several of
the new links, while the old ones are gone. What matters are the paths of the graph before it:
`Graph.acyclic_replaceNode_iff` says that the graph stays free of cycles exactly if none of the
readers that are redirected has a path to the new node.
-/

namespace TensorGraph

/-! ### Steps that are redirected -/

section

variable {α : Type} {r r' : α → α → Prop} {old new a b c : α}

/-- The steps of the second relation are those of the first one, where steps to `old` lead to `new`
unless they start there. -/
def Redirected (old new : α) (r r' : α → α → Prop) : Prop :=
  ∀ a b, r' a b ↔ r a b ∧ (a = new ∨ b ≠ old) ∨ a ≠ new ∧ b = new ∧ r a old

namespace Redirected

/-- A path takes no redirected step, or it takes one and goes on from there. -/
theorem cases_transGen (h : Redirected old new r r') (path : Relation.TransGen r' a c) :
    Relation.TransGen r a c ∨ ∃ b, b ≠ new ∧ r b old ∧ Relation.ReflTransGen r' a b ∧
      Relation.ReflTransGen r' new c := by
  induction path with
  | single step =>
    rcases (h _ _).1 step with ⟨kept, _⟩ | ⟨other, rfl, into⟩
    · exact .inl (.single kept)
    · exact .inr ⟨a, other, into, .refl, .refl⟩
  | @tail b c path step ih =>
    rcases (h _ _).1 step with ⟨kept, _⟩ | ⟨other, rfl, into⟩
    · rcases ih with old | ⟨d, other, into, first, later⟩
      · exact .inl (old.tail kept)
      · exact .inr ⟨d, other, into, first, later.tail step⟩
    · exact .inr ⟨b, other, into, path.to_reflTransGen, .refl⟩

/-- A path from `new` has been there before, up to the first redirected step. -/
theorem cases_reflTransGen (h : Redirected old new r r') (path : Relation.ReflTransGen r' new c) :
    Relation.ReflTransGen r new c ∨ ∃ b, b ≠ new ∧ r b old ∧ Relation.ReflTransGen r new b := by
  induction path with
  | refl => exact .inl .refl
  | @tail b c _ step ih =>
    rcases ih with before | found
    · rcases (h _ _).1 step with ⟨kept, _⟩ | ⟨other, _, into⟩
      · exact .inl (before.tail kept)
      · exact .inr ⟨b, other, into, before⟩
    · exact .inr found

/-- Without cycles a path to a place from which a step leads to `old` does not lead through `old`,
and is still there. -/
theorem reflTransGen (h : Redirected old new r r') (acyclic : ∀ a, ¬Relation.TransGen r a a)
    (into : r b old) (path : Relation.ReflTransGen r a b) : Relation.ReflTransGen r' a b := by
  induction path using Relation.ReflTransGen.head_induction_on with
  | refl => exact .refl
  | @head a c step rest ih =>
    refine .head ((h _ _).2 (.inl ⟨step, .inr ?_⟩)) ih
    rintro rfl
    exact acyclic c (.tail' rest into)

/-- The redirected steps close a cycle exactly if a path leads from `new` to where one of them
starts. -/
theorem acyclic_iff (h : Redirected old new r r') (acyclic : ∀ a, ¬Relation.TransGen r a a) :
    (∀ a, ¬Relation.TransGen r' a a) ↔
      ∀ b, b ≠ new → r b old → ¬Relation.ReflTransGen r new b := by
  constructor
  · intro acyclic' b other into path
    have back : r' b new := (h _ _).2 (.inr ⟨other, rfl, into⟩)
    exact acyclic' b (.head' back (h.reflTransGen acyclic into path))
  · intro unreached a cycle
    rcases h.cases_transGen cycle with before | ⟨b, other, into, first, later⟩
    · exact acyclic a before
    · rcases h.cases_reflTransGen (later.trans first) with path | ⟨d, other, into, path⟩
      · exact unreached b other into path
      · exact unreached d other into path

end Redirected

end

namespace Graph

variable {g g' : Graph} {old new : NodeId}

/-- The edges of a graph that mirror the inputs close a cycle exactly if some node is computed from
itself. -/
theorem Wired.isCyclic_eq_false_iff (h : g.Wired) :
    g.isCyclic = false ↔ ∀ id, ¬Relation.TransGen g.Reads id id := by
  have reads : (fun reader source => source ∈ g.predecessors reader) = g.Reads := by
    funext reader source
    exact propext h.mem_predecessors_iff_reads
  rw [isCyclic_eq_false_iff_irreflexive, reads]

theorem redirected_replaceNode (mirrored : g.Mirrored) (sourced : g.Sourced)
    (done : (GraphM.replaceNode old new).runOn g = (.ok (), g')) :
    Redirected old new g.Reads g'.Reads := by
  intro reader source
  simp only [reads_iff_exists_input, input?_replaceNode mirrored sourced done]
  by_cases e : reader = new
  · simp [e]
  · simp only [e, if_false, false_or, ne_eq, not_false_eq_true, true_and, Option.map_eq_some_iff]
    constructor
    · rintro ⟨port, _, ⟨o, hread, rfl⟩, source⟩
      rcases GraphM.moved_eq_iff.1 source with ⟨same, elsewhere⟩ | ⟨hold, hnew⟩
      · exact .inl ⟨⟨port, o, hread, same⟩, elsewhere⟩
      · exact .inr ⟨hnew, port, o, hread, hold⟩
    · rintro (⟨⟨port, o, hread, same⟩, elsewhere⟩ | ⟨hnew, port, o, hread, hold⟩)
      · exact ⟨port, _, ⟨o, hread, rfl⟩, GraphM.moved_eq_iff.2 (.inl ⟨same, elsewhere⟩)⟩
      · exact ⟨port, _, ⟨o, hread, rfl⟩, GraphM.moved_eq_iff.2 (.inr ⟨hold, hnew⟩)⟩

/-- In a valid graph a replacement closes no cycle exactly if no node that is redirected has a path
to the new node. -/
theorem acyclic_replaceNode_iff (valid : g.validate = .ok ()) (mirrored : g.Mirrored)
    (done : (GraphM.replaceNode old new).runOn g = (.ok (), g')) :
    (g'.isCyclic = false ↔ ∀ id, ¬Relation.TransGen g'.Reads id id) ∧
      ((∀ id, ¬Relation.TransGen g'.Reads id id) ↔ ∀ reader, reader ≠ new → g.Reads reader old →
        ¬Relation.ReflTransGen g.Reads new reader) := by
  have valid := validate_eq_ok_iff.1 valid
  have redirected := redirected_replaceNode mirrored valid.inputs_exist done
  have wired' := wired_replaceNode mirrored valid.inputs_exist done
  exact ⟨wired'.isCyclic_eq_false_iff, redirected.acyclic_iff (valid.grounded mirrored).acyclic⟩

/-- A node that is an output of the graph, a node that reads it, and one that reads that one. -/
def wrappedTwice : List Call :=
  [.addParameter "x" ⟨.f32, .ofExtents [2]⟩, .makeNode { op := "Relu", inputs := [⟨0, 0⟩] },
    .makeNode { op := "Ceiling", inputs := [⟨1, 0⟩] },
    .makeNode { op := "Relu", inputs := [⟨2, 0⟩] }, .addResult ⟨1, 0⟩]

/-- The node may give way to the one that reads it, but not to the one after. -/
theorem acyclic_wrappedTwice :
    ∃ g₁ g₂, ((empty "f").after .core wrappedTwice).validate = .ok () ∧
      ((empty "f").after .core wrappedTwice).Mirrored ∧
      (GraphM.replaceNode 1 2).runOn ((empty "f").after .core wrappedTwice) = (.ok (), g₁) ∧
      (∀ id, ¬Relation.TransGen g₁.Reads id id) ∧
      (GraphM.replaceNode 1 3).runOn ((empty "f").after .core wrappedTwice) = (.ok (), g₂) ∧
      ¬∀ id, ¬Relation.TransGen g₂.Reads id id := by
  have valid : ((empty "f").after .core wrappedTwice).validate = .ok () := by decide +kernel
  have mirrored : ((empty "f").after .core wrappedTwice).Mirrored := by decide +kernel
  have one :
      ((GraphM.replaceNode 1 2).runOn ((empty "f").after .core wrappedTwice)).1 = .ok () := by
    decide +kernel
  have first := GraphM.eq_ok_of_fst_eq one
  have two :
      ((GraphM.replaceNode 1 3).runOn ((empty "f").after .core wrappedTwice)).1 = .ok () := by
    decide +kernel
  have second := GraphM.eq_ok_of_fst_eq two
  refine ⟨_, _, valid, mirrored, first, ?_, second, ?_⟩
  · exact (acyclic_replaceNode_iff valid mirrored first).1.1 (by decide +kernel)
  · intro acyclic
    refine (acyclic_replaceNode_iff valid mirrored second).2.1 acyclic 2 (by decide)
      (by decide +kernel) (.single ?_)
    decide +kernel

end Graph

end TensorGraph

import TensorGraph.Pipeline
import TensorGraph.Proofs.Except
import TensorGraph.Proofs.Graph.Validity
import TensorGraph.Proofs.Inference.Turns

/-!
# Graphs in which every node is in step

Inference changes no node of a graph in which every node is in step. What a pipeline does after a
stage keeps such a graph so, and takes nodes out of it at most (`Graph.Current.tidy`).
-/

namespace TensorGraph.Graph

variable {registry : Registry} {g g' : Graph} {id : NodeId} {node : Node}

/-- Whether every node is in step can be seen from the nodes that there are. -/
theorem current_iff : g.Current registry ↔ ∀ place ∈ g.placed,
    (g.inferred registry place.2.node).toOption = some place.2.node.outputs := by
  have done {x : Except Error (List Slot)} {slots : List Slot} :
      x.toOption = some slots ↔ x = .ok slots := by
    cases x <;> simp [Except.toOption]
  constructor
  · rintro h ⟨id, entry⟩ hplace
    have hnode : g.node? id = some entry.node :=
      node?_eq_some_iff.2 ⟨entry, mem_placed.1 hplace, rfl⟩
    obtain ⟨node, hnode', inferred⟩ := h id (contains_of_node? hnode)
    obtain rfl := Option.some.inj (hnode.symm.trans hnode')
    exact done.2 inferred
  · intro h id live
    obtain ⟨node, hnode⟩ := contains_iff_exists_node?.1 live
    obtain ⟨entry, hentry, rfl⟩ := node?_eq_some_iff.1 hnode
    exact ⟨_, hnode, done.1 (h (id, entry) (mem_placed.2 hentry))⟩

instance : Decidable (g.Current registry) := decidable_of_iff _ current_iff.symm

theorem Current.of_node?_eq (h : g.Current registry) (same : ∀ id, g'.node? id = g.node? id) :
    g'.Current registry := by
  intro id live
  have old : g.contains id := (contains_congr (same id)).symm.trans live
  exact (InStep.congr (same id) fun _ o _ => slot_congr (same o.node)).2 (h id old)

/-- Inference finds the outputs that are there already. -/
theorem Current.node?_inferStale (h : g.Current registry) (id : NodeId) :
    ((GraphM.inferStale registry).runOn g).2.node? id = g.node? id := by
  rw [GraphM.runOn_inferStale]
  refine GraphM.inferInTurn_keeps (P := fun g' => ∀ id, g'.node? id = g.node? id) (fun _ => rfl)
    (fun turn _ g₁ turned same id => ?_) id
  cases turned with
  | skipped => exact same id
  | @computed node slots stale hnode hslots =>
    obtain ⟨node', hnode', inferred⟩ := h.of_node?_eq same turn.1 (contains_of_isStale stale)
    obtain rfl := Option.some.inj (hnode.symm.trans hnode')
    obtain rfl := Except.ok.inj (hslots.symm.trans inferred)
    rw [node?_refresh, same]
    split
    · next e => rw [e, ← same turn.1, hnode, Option.map_some]
    · rfl

theorem runOn_inferStale_of_fresh (fresh : g.hasStale = false) :
    (GraphM.inferStale registry).runOn g = (.ok 0, g) := by
  simp only [GraphM.inferStale]
  rw [GraphM.runOn_bind, GraphM.runOn_get]
  simp only [fresh]
  rfl

theorem node?_of_node?_collect (h : g.collect.node? id = some node) : g.node? id = some node := by
  rw [collect, node?_foldl_vacate] at h
  split at h
  · cases h
  · exact h

/-- Nodes may be taken out that nothing reads any more. -/
theorem Current.collect (h : g.Current registry) (inputsLive : g.collect.InputsLive) :
    g.collect.Current registry := by
  have same {i : NodeId} (live : g.collect.contains i) : g.collect.node? i = g.node? i := by
    obtain ⟨node, hnode⟩ := contains_iff_exists_node?.1 live
    rw [hnode, node?_of_node?_collect hnode]
  intro id live
  obtain ⟨node, hnode, inferred⟩ := h id ((contains_congr (same live)).symm.trans live)
  refine ⟨node, (same live).trans hnode, ?_⟩
  rw [← inferred]
  apply inferred_congr
  intro o ho
  obtain ⟨port, hport⟩ := exists_port_of_mem ((same live).trans hnode) ho
  exact slot_congr (same (inputsLive id port o hport))

end TensorGraph.Graph

/-! ### Pipelines -/

namespace TensorGraph.Pipeline

variable {ctx : Context} {pass : Pass} {g g' : Graph} {id : NodeId} {node : Node} {changed : Bool}

/-- What is done after a stage: what remains after collection is valid, and it is brought up to
date. -/
theorem runOn_tidy_eq_ok_iff : (tidy {} ctx).runOn g = (.ok (), g') ↔
    g.collect.validate = .ok () ∧
      ∃ n, (GraphM.inferStale ctx.registry).runOn g.collect = (.ok n, g') := by
  have steps : tidy {} ctx = (do
      let _ ← GraphM.removeUnreachable
      GraphM.ask (·.validate)
      let _ ← GraphM.inferStale ctx.registry) := rfl
  simp only [steps, GraphM.runOn_bind_eq_ok_iff, GraphM.runOn_ask_eq_ok_iff,
    GraphM.runOn_pure_eq_ok_iff]
  constructor
  · rintro ⟨_, g₁, collected, _, _, ⟨valid, rfl⟩, n, _, inferred, -, rfl⟩
    obtain ⟨-, rfl⟩ := Prod.mk.inj ((GraphM.runOn_removeUnreachable g).symm.trans collected)
    exact ⟨valid, n, inferred⟩
  · rintro ⟨valid, n, inferred⟩
    exact ⟨_, _, GraphM.runOn_removeUnreachable g, _, _, ⟨valid, rfl⟩, n, _, inferred,
      trivial, rfl⟩

/-- It takes nodes out of a graph in step and leaves the others alone. -/
theorem node?_of_tidy (current : g.Current ctx.registry)
    (run : (tidy {} ctx).runOn g = (.ok (), g')) (h : g'.node? id = some node) :
    g.node? id = some node := by
  obtain ⟨valid, n, inferred⟩ := runOn_tidy_eq_ok_iff.1 run
  have kept := current.collect (Graph.validate_eq_ok_iff.1 valid).inputsLive
  apply Graph.node?_of_node?_collect
  rw [← kept.node?_inferStale, congrArg Prod.snd inferred]
  exact h

/-- A run of one pass: the graph is brought up to date before, and tidied up if the pass changed
it. -/
theorem runOn_of_pass (run : (Pipeline.run { stages := [.pass pass] } ctx).runOn g =
    (.ok changed, g')) : ∃ n g₀ g₁, (GraphM.inferStale ctx.registry).runOn g = (.ok n, g₀) ∧
      (pass.run ctx).runOn g₀ = (.ok changed, g₁) ∧
        if changed then (tidy {} ctx).runOn g₁ = (.ok (), g') else g' = g₁ := by
  rw [Pipeline.run, GraphM.runOn_ofFn, trace] at run
  rcases inferred : (GraphM.inferStale ctx.registry).runOn g with ⟨_ | n, g₀⟩
  · simp [inferred] at run
  rcases passed : (pass.run ctx).runOn g₀ with ⟨_ | _ | _, g₁⟩
  · simp [inferred, runStages, Stage.runOn, passed] at run
  · simp only [inferred, runStages, Stage.runOn, passed, Prod.mk.injEq, Except.ok.injEq] at run
    obtain ⟨rfl, rfl⟩ := run
    exact ⟨n, g₀, g₁, rfl, passed, rfl⟩
  · rcases tidied : (tidy {} ctx).runOn g₁ with ⟨_ | _, g₂⟩
    · simp [inferred, runStages, Stage.runOn, passed, tidied] at run
    · simp only [inferred, runStages, Stage.runOn, passed, tidied, Prod.mk.injEq,
        Except.ok.injEq] at run
      obtain ⟨rfl, rfl⟩ := run
      exact ⟨n, g₀, g₁, rfl, passed, tidied⟩

end TensorGraph.Pipeline

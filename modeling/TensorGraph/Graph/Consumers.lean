import TensorGraph.Graph.Turn

/-!
# Consumers

The consumers of an output are the inputs that read it. An input counts only if the graph has an
edge for it.
-/

namespace TensorGraph.Graph

/-- The ports through which the node at `id` reads the output `o` along an edge. -/
def portsReading (g : Graph) (o : Output) (id : NodeId) : List Nat :=
  match g.node? id with
  | none => []
  | some node =>
    (List.range node.inputs.length).filter fun port =>
      node.inputs[port]? = some o && g.edges.contains ⟨o.node, id, port⟩

/-- The inputs that read the output `o`: node and port, by the age of the nodes. -/
def consumers (g : Graph) (o : Output) : List (NodeId × Nat) :=
  g.turns.flatMap fun turn => (g.portsReading o turn.id).map (turn.id, ·)

theorem mem_portsReading {g : Graph} {o : Output} {id : NodeId} {port : Nat} :
    port ∈ g.portsReading o id ↔
      ∃ node, g.node? id = some node ∧ node.inputs[port]? = some o ∧
        ⟨o.node, id, port⟩ ∈ g.edges := by
  unfold portsReading
  cases g.node? id with
  | none => simp
  | some node =>
    simp only [List.mem_filter, List.mem_range, Bool.and_eq_true, decide_eq_true_eq,
      List.contains_iff_mem, Option.some.injEq, exists_eq_left']
    constructor
    · exact fun h => h.2
    · exact fun h => ⟨(List.getElem?_eq_some_iff.1 h.1).1, h⟩

theorem mem_consumers {g : Graph} {o : Output} {id : NodeId} {port : Nat} :
    (id, port) ∈ g.consumers o ↔
      ∃ node, g.node? id = some node ∧ node.inputs[port]? = some o ∧
        ⟨o.node, id, port⟩ ∈ g.edges := by
  simp only [consumers, List.mem_flatMap, List.mem_map, Prod.mk.injEq]
  constructor
  · rintro ⟨turn, _, _, h, rfl, rfl⟩
    exact mem_portsReading.1 h
  · intro h
    have ⟨node, hnode, _⟩ := h
    obtain ⟨entry, hentry, _⟩ := node?_eq_some_iff.1 hnode
    exact ⟨⟨entry.seq, id⟩, mem_turns.2 ⟨entry, hentry, rfl⟩, port, mem_portsReading.2 h, rfl, rfl⟩

end TensorGraph.Graph

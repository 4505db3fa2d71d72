import TensorGraph.Graph.Order

/-!
# Validity

A graph is valid if every input names a slot that exists, every input and output of the graph
exists, and the edges close no cycle.
-/

namespace TensorGraph.Graph

/-- The first fault of the inputs of a node, counted from `port`. -/
def inputFault? (g : Graph) (id : NodeId) (node : Node) : Nat → List Output → Option StructuralFault
  | _, [] => none
  | port, input :: rest =>
    match g.node? input.node with
    | none => some (.inputMissing node.name node.op id port input.node)
    | some producer =>
      if input.slot < producer.outputs.length then g.inputFault? id node (port + 1) rest
      else some (.inputSlotMissing node.name node.op id port input.slot producer.op
        producer.outputs.length)

/-- The first fault of the graph: of an input, of its parameters and results, or a cycle. -/
def fault? (g : Graph) : Option StructuralFault :=
  let inputs := g.placed.findSome? fun (id, entry) =>
    g.inputFault? id entry.node 0 entry.node.inputs
  let designated := (g.parameters ++ g.results).find? fun id => !g.contains id
  inputs <|> designated.map .designatedMissing <|>
    if g.isCyclic then some (.cyclic g.name) else none

/-- Fails if the graph has a fault. -/
def validate (g : Graph) : Except Error Unit :=
  match g.fault? with
  | none => .ok ()
  | some fault => .error (.structural fault)

end TensorGraph.Graph

import TensorGraph.Graph.Edit
import TensorGraph.Graph.Order
import TensorGraph.Operator

/-!
# Inference of types and values

A node's outputs are computed by its operator from the slots that it reads. Stale nodes are
computed again in the order of the graph, so that producers come first; a node whose outputs
change makes its readers stale.
-/

namespace TensorGraph

namespace Slot

/-- Equality of slots, their values compared as numbers: a NaN is never what it was. -/
def numEq (a b : Slot) : Bool :=
  a.toSlotType = b.toSlotType &&
    match a.value, b.value with
    | none, none => true
    | some x, some y => x.numEq y
    | _, _ => false

/-- Equality of lists of slots, place by place. -/
def numEqList : List Slot → List Slot → Bool
  | [], [] => true
  | a :: as, b :: bs => a.numEq b && numEqList as bs
  | _, _ => false

end Slot

/-- The outputs that the operator of a node computes at a site. -/
def Operator.slots (operator : Operator) (site : Site) : Except Error (List Slot) := do
  let name := site.node.name
  let op := site.node.op
  let types ← (operator.types site).mapError (.untyped name op)
  let values ← (operator.fold site).mapError (.unfolded name op)
  if values ≠ [] ∧ values.length ≠ types.length then
    throw (.folding (.valueCount op values.length types.length))
  pure (types.mapIdx fun i type => { type with value := values[i]?.join })

/-- The outputs of a node, computed from the slots that it reads in the graph. -/
def Graph.inferred (g : Graph) (registry : Registry) (node : Node) : Except Error (List Slot) :=
  match registry.find? node.op with
  | none => .error (.inference (.unregistered node.op))
  | some operator => operator.slots (g.site node)

namespace Graph

/-- Sets the outputs of a node, which is then up to date. -/
def update (g : Graph) (id : NodeId) (slots : List Slot) : Graph :=
  (g.modifyNode id fun node => { node with outputs := slots }).clearStale id

/-- Marks everything stale that is computed from an output of the node. -/
def markReaders (g : Graph) (id : NodeId) : Graph :=
  let outputs := ((g.node? id).map fun node => node.outputs.length).getD 0
  let readers := (List.range outputs).flatMap fun slot => g.consumers ⟨id, slot⟩
  readers.foldl (fun g reader => g.markStale reader.1) g

end Graph

namespace GraphM

variable (registry : Registry)

/-- Computes the outputs of a node. Have they changed? -/
def inferNode (id : NodeId) : GraphM Bool := do
  let node ← ask (·.node id)
  let slots ← ask (·.inferred registry node)
  modify (·.update id slots)
  pure !Slot.numEqList slots node.outputs

/-- Inserts a node and computes its outputs. -/
def makeNode (node : Node) : GraphM NodeId := do
  let id ← addNode node
  let _ ← inferNode registry id
  pure id

/-- Computes the stale ones of the given nodes in turn, each change making its readers stale, and
counts the nodes that changed. -/
def inferInTurn : List NodeId → GraphM Nat
  | [] => pure 0
  | id :: rest => do
    if (← get).isStale id then
      if ← inferNode registry id then
        modify (·.markReaders id)
        return (← inferInTurn rest) + 1
    inferInTurn rest

/-- Computes every stale node, in the order of the graph, and counts the nodes that changed. -/
def inferStale : GraphM Nat := do
  let g ← get
  if g.hasStale then inferInTurn registry g.order else pure 0

/-- Computes every node, stale or not. Has one changed? -/
def inferAll : GraphM Bool := do
  modify fun g => g.setStale g.ids
  return (← inferStale registry) > 0

end GraphM

end TensorGraph

import TensorGraph.Batch.Relaxation
import TensorGraph.Pipeline

/-!
# Change of the batch size

The batch size of a graph is the extent of the first dimension of its parameters. Before it is
changed the reshapes that fix a batch are relaxed, so that they follow the change.
-/

namespace TensorGraph.GraphM

/-- Gives the parameter the batch as its first extent, if it is known to have a dimension. -/
def resizeParameter (batch : Nat) (id : NodeId) : GraphM Unit := do
  let slot ← ask (·.slot ⟨id, 0⟩)
  if slot.shape.rank?.any (0 < ·) then
    setOutputType ⟨id, 0⟩ ⟨slot.element, slot.shape.withDim 0 (.fixed batch)⟩

/-- Changes the batch size of a graph, with the answer whether a reshape was relaxed. -/
def setBatchSize (registry : Registry) (batch : Nat) : GraphM Bool := do
  if batch = 0 then throw (.precondition .zeroBatch)
  let pipeline : Pipeline := { stages := [.pass .relaxBatches] }
  let relaxed ← pipeline.run { registry, batchUpdate := true }
  (← get).parameters.forM (resizeParameter batch)
  let _ ← inferStale registry
  ask (·.validate)
  pure relaxed

end TensorGraph.GraphM

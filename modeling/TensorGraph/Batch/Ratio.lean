import TensorGraph.Error

/-!
# Scaled batches

A reshape that turns a batch of `inBatch` into one of `outBatch` turns any other batch into one
scaled by the same ratio and rounded up.
-/

namespace TensorGraph

/-- The batch `observed · outBatch / inBatch`, rounded up. The product and the quotient are numbers
of 64 bits, as in the nodes that compute the batch in a graph. -/
def relaxedBatch (observed inBatch outBatch : Int64) : Except Error Int64 :=
  if inBatch ≤ 0 then
    .error (.precondition (.inputBatchNotPositive inBatch.toInt))
  else
    let scaled : Binary64 := .ofInt observed.toInt * .ofInt outBatch.toInt
    .ok (scaled / .ofInt inBatch.toInt).ceil.toInt64

end TensorGraph

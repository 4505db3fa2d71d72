import TensorGraph.Error

/-!
# Axes

An axis of a tensor is counted from the first dimension or, if it is negative, from the end.
-/

namespace TensorGraph

/-- The dimension that an axis names, for the operator `op` on a tensor of the given rank. -/
def resolveAxis (op : String) (axis : Int) (rank : Nat) : Except Error Nat :=
  let dim := if axis < 0 then rank + axis else axis
  if dim < 0 ∨ (rank : Int) ≤ dim then .error (.inference (.axisOutOfRange op axis rank))
  else .ok dim.toNat

end TensorGraph

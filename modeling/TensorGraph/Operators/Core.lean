import TensorGraph.Operators.Concat
import TensorGraph.Operators.Convert
import TensorGraph.Operators.Elementwise
import TensorGraph.Operators.Gather
import TensorGraph.Operators.MemoryAccess
import TensorGraph.Operators.Reshape
import TensorGraph.Operators.ShapeOf

/-!
# The core operators

The registry of the operators that this library defines.
-/

namespace TensorGraph

/-- Every operator of the library. -/
def Operator.core : List Operator :=
  [.parameter, .result, .constant,
    .add, .subtract, .multiply, .divide,
    .ceiling, .floor, .relu,
    .reshape, .shapeOf, .concat, .gather, .convert]
  ++ MemoryAccess.kinds.map .memoryAccess

/-- The registry of the core operators. -/
def Registry.core : Registry := Registry.empty.insertAll Operator.core

end TensorGraph

import TensorGraph.Operators.Boundary

/-!
# Memory accesses

A load or store moves as many elements at once as its attribute `vector_width` says, a scalar
access one. What flows through a node does not depend on the width, so that an access may be
replaced by its scalar form.
-/

namespace TensorGraph

namespace MemoryAccess

/-- The attribute that holds the width of an access. -/
def widthKey : String := "vector_width"

/-- The operator type of loads. -/
def load : String := "Load"

/-- The operator type of stores. -/
def store : String := "Store"

/-- The operator type of loads of single elements. -/
def scalarLoad : String := "ScalarLoad"

/-- The operator type of stores of single elements. -/
def scalarStore : String := "ScalarStore"

/-- A kind of memory access. -/
structure Kind where
  /-- The operator type. -/
  op : String
  /-- Does it move single elements only? -/
  scalar : Bool
deriving DecidableEq, Repr

/-- Every kind of memory access. -/
def kinds : List Kind :=
  [⟨load, false⟩, ⟨store, false⟩, ⟨scalarLoad, true⟩, ⟨scalarStore, true⟩]

end MemoryAccess

/-- A memory access: the width is at least 1, and 1 if the access is scalar. -/
def Operator.memoryAccess (kind : MemoryAccess.Kind) : Operator where
  name := kind.op
  types s := do
    s.expectInputs 1
    let width ← s.intOr MemoryAccess.widthKey 1
    if width < 1 then throw (.attr (.widthTooSmall kind.op width))
    if kind.scalar ∧ width ≠ 1 then throw (.attr (.scalarWidth kind.op width))
    passType s

end TensorGraph

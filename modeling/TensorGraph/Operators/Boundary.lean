import TensorGraph.Operator

/-!
# Parameters, results and constants

The nodes at the boundary of a graph: a parameter keeps the types it declares, a result passes on
what it reads, a constant has the type and the value of the tensor that it holds.
-/

namespace TensorGraph.Operator

/-- Operators that pass on the type of their one input. -/
def passType (s : Site) : Except Error (List SlotType) := do
  s.expectInputs 1
  pure [⟨← s.element 0, ← s.shape 0⟩]

/-- An input of the graph: its outputs are as declared, and there is at least one. -/
def parameter : Operator where
  name := "Parameter"
  types s := do
    s.expectInputs 0
    if s.node.outputs.isEmpty then throw (.inference (.parameterUntyped s.node.name))
    pure (s.node.outputs.map Slot.toSlotType)

/-- An output of the graph. -/
def result : Operator where
  name := "Result"
  types := passType

/-- The tensor that a constant holds. -/
def payload (s : Site) : Except Error Tensor :=
  match s.node.constant with
  | some t => .ok t
  | none => .error (.inference (.constantEmpty s.node.name))

/-- A tensor that is part of the graph. -/
def constant : Operator where
  name := "Constant"
  types s := do
    s.expectInputs 0
    let t ← payload s
    pure [⟨t.elementType, t.shape⟩]
  fold s := return [some (← payload s)]

end TensorGraph.Operator

import TensorGraph.Tensor.Cast
import TensorGraph.Operator

/-!
# Conversion

A conversion changes the element type of a tensor and keeps its shape.
-/

namespace TensorGraph

/-- The element type that the attribute `destination_type` names. -/
def Convert.destination (s : Site) : Except Error ElementType := do
  ElementType.ofName (← s.text "destination_type")

/-- The input with its elements converted. -/
def Operator.convert : Operator where
  name := "Convert"
  types s := do
    s.expectInputs 1
    pure [⟨← Convert.destination s, ← s.shape 0⟩]
  fold s := do
    match ← s.value 0 with
    | none => pure [none]
    | some t => return [some (← t.cast (← Convert.destination s))]

end TensorGraph

import TensorGraph.Tensor.Cast
import TensorGraph.Operator

/-!
# Shape of a tensor

The extents of a tensor as a tensor of integers. Its value is known as soon as the shape is.
-/

namespace TensorGraph

/-- The integer type in which the extents are given. -/
def ShapeOf.element (s : Site) : Except Error ElementType :=
  match s.attribute? "output_type" with
  | none => .ok .i64
  | some _ => do
    match ← ElementType.ofName (← s.text "output_type") with
    | .i64 => pure .i64
    | .i32 => pure .i32
    | other => throw (.attr (.shapeElementType other))

/-- The extents of the input. -/
def Operator.shapeOf : Operator where
  name := "ShapeOf"
  types s := do
    s.expectInputs 1
    let shape := match (← s.shape 0).rank? with
      | some rank => Shape.ofExtents [rank]
      | none => Shape.ofRank 1
    pure [⟨← ShapeOf.element s, shape⟩]
  fold s := do
    match (← s.shape 0).extents? with
    | none => pure [none]
    | some extents =>
      let t := Tensor.ofInts (extents.map Int.ofNat)
      pure [some (← t.cast (← ShapeOf.element s))]

end TensorGraph

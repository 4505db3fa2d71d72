import TensorGraph.Broadcast
import TensorGraph.Operators.Boundary

/-!
# Operations on elements

Operations that work element by element: those on two tensors broadcast their shapes, those on one
keep its shape. Values of floating-point type are folded, values of 64-bit integers where the
operation has a result for every pair of them; other values are left to the run of the graph.
-/

namespace TensorGraph.Operator

/-- The element operation of an operator on two tensors, by element type. -/
structure BinaryFold where
  /-- On numbers of 64 bits. -/
  onF64 : Binary64 → Binary64 → Binary64
  /-- On numbers of 32 bits. -/
  onF32 : Binary32 → Binary32 → Binary32
  /-- On integers of 64 bits, which wrap around. -/
  onI64 : Option (Int64 → Int64 → Int64)

namespace BinaryFold

/-- The elements of the operation, if it is folded for their types. -/
def elements? (f : BinaryFold) (a b : Tensor) (common : List Nat) : Option TensorData :=
  match a.data, b.data with
  | .f64 xs, .f64 ys => some (.f64 (Broadcast.elementwise f.onF64 xs a.extents ys b.extents common))
  | .f32 xs, .f32 ys => some (.f32 (Broadcast.elementwise f.onF32 xs a.extents ys b.extents common))
  | .i64 xs, .i64 ys =>
    f.onI64.map fun onI64 => .i64 (Broadcast.elementwise onI64 xs a.extents ys b.extents common)
  | _, _ => none

end BinaryFold

/-- An operator on two tensors of the same element type. -/
def binary (name : String) (f : BinaryFold) : Operator where
  name
  types s := do
    s.expectInputs 2
    let left ← s.element 0
    let right ← s.element 1
    if left ≠ right then throw (.inference (.elementTypesDiffer name left right))
    pure [⟨left, ← (← s.shape 0).broadcast (← s.shape 1)⟩]
  fold s := do
    match ← s.value 0, ← s.value 1 with
    | some a, some b =>
      let common ← Shape.broadcastExtents a.extents b.extents
      pure [(f.elements? a b common).map (⟨·, common⟩)]
    | _, _ => pure [none]

/-- The sum. -/
def add : Operator := binary "Add" ⟨(· + ·), (· + ·), some (· + ·)⟩

/-- The difference. -/
def subtract : Operator := binary "Subtract" ⟨(· - ·), (· - ·), some (· - ·)⟩

/-- The product. -/
def multiply : Operator := binary "Multiply" ⟨(· * ·), (· * ·), some (· * ·)⟩

/-- The quotient; integers are not folded, since the divisor may be zero. -/
def divide : Operator := binary "Divide" ⟨(· / ·), (· / ·), none⟩

/-- The element operation of an operator on one tensor, by element type. -/
structure UnaryFold where
  /-- On numbers of 64 bits. -/
  onF64 : Binary64 → Binary64
  /-- On numbers of 32 bits. -/
  onF32 : Binary32 → Binary32

/-- The elements of the operation, if it is folded for their type. -/
def UnaryFold.elements? (f : UnaryFold) : TensorData → Option TensorData
  | .f64 xs => some (.f64 (xs.map f.onF64))
  | .f32 xs => some (.f32 (xs.map f.onF32))
  | _ => none

/-- An operator on one tensor. -/
def unary (name : String) (f : UnaryFold) : Operator where
  name
  types := passType
  fold s := do
    match ← s.value 0 with
    | some t => pure [(f.elements? t.data).map (⟨·, t.extents⟩)]
    | none => pure [none]

/-- Rounds up. -/
def ceiling : Operator := unary "Ceiling" ⟨.ceil, .ceil⟩

/-- Rounds down. -/
def floor : Operator := unary "Floor" ⟨.floor, .floor⟩

/-- Cuts off below zero. -/
def relu : Operator := unary "Relu" ⟨.positivePart, .positivePart⟩

end TensorGraph.Operator

import TensorGraph.Operator
import TensorGraph.Operators.Axis

/-!
# Gather

A gather takes slices of its data, at the positions that its indices name along an axis; a negative
index counts from the end. Data of one dimension are folded, which is what computing with shapes
needs.
-/

namespace TensorGraph

namespace Gather

/-- The axis: the third input, if there is one and it is known, else the attribute `axis`. -/
def axis? (s : Site) : Except Error (Option Int) := do
  if s.inputCount < 3 then
    return some (← s.intOr "axis" 0)
  match ← s.value 2 with
  | none => pure none
  | some t =>
    match t.integers? with
    | some [axis] => pure (some axis)
    | _ => throw (.inference (.gatherAxis t.extents))

/-- The position that an index names among `extent` elements. -/
def position (extent : Nat) (index : Int) : Except Error Nat :=
  let place := if index < 0 then extent + index else index
  if place < 0 ∨ (extent : Int) ≤ place then .error (.folding (.indexOutOfRange index extent))
  else .ok place.toNat

/-- The elements at the given positions, if they are of a type that is folded. -/
def elements? (positions : List Nat) : TensorData → Option TensorData
  | .i64 xs => some (.i64 (positions.filterMap (xs[·]?)))
  | .i32 xs => some (.i32 (positions.filterMap (xs[·]?)))
  | .f32 xs => some (.f32 (positions.filterMap (xs[·]?)))
  | .f64 xs => some (.f64 (positions.filterMap (xs[·]?)))
  | .u8 _ | .boolean _ => none

end Gather

/-- Slices of the data. The dimensions of the indices take the place of the axis. -/
def Operator.gather : Operator where
  name := "Gather"
  types s := do
    if s.inputCount < 2 ∨ 3 < s.inputCount then
      throw (.inference (.gatherArity s.inputCount))
    let element ← s.element 0
    match ← s.shape 0, ← s.shape 1, ← Gather.axis? s with
    | .ranked data, .ranked indices, some axis =>
      let axis ← resolveAxis "Gather" axis data.length
      pure [⟨element, .ranked (data.take axis ++ indices ++ data.drop (axis + 1))⟩]
    | _, _, _ => pure [⟨element, .unranked⟩]
  fold s := do
    match ← s.value 0, ← s.value 1 with
    | some data, some indices =>
      let axis ← Gather.axis? s
      if data.rank ≠ 1 ∨ (axis ≠ some 0 ∧ axis ≠ some (-1)) then
        return [none]
      match indices.integers? with
      | none => pure [none]
      | some is =>
        let positions ← is.mapM (Gather.position data.length)
        pure [(Gather.elements? positions data.data).map (⟨·, indices.extents⟩)]
    | _, _ => pure [none]

end TensorGraph

import TensorGraph.Operator
import TensorGraph.Operators.Axis

/-!
# Concatenation

Tensors of one element type and rank are joined along an axis; off the axis their extents agree.
Values of one dimension are folded, which is what computing with shapes needs.
-/

namespace TensorGraph

namespace Concat

/-- The dimension of the joined tensor from that of the tensors so far and that of the next one;
`none` if the extents clash. -/
def joinDim (onAxis : Bool) : Dim → Dim → Option Dim
  | .fixed m, .fixed n =>
    if onAxis then some (.fixed (m + n)) else if m = n then some (.fixed m) else none
  | current, next =>
    if onAxis then some .dynamic
    else if current = .dynamic then some next else some current

/-- The dimensions of the joined tensor, position by position. -/
def joinDims (axis input : Nat) : Nat → List Dim → List Dim → Except Error (List Dim)
  | position, m :: ms, n :: ns =>
    match joinDim (position = axis) m n with
    | some dim => return dim :: (← joinDims axis input (position + 1) ms ns)
    | none =>
      .error (.inference (.concatExtent input position (n.extent?.getD 0) (m.extent?.getD 0)))
  | _, _, _ => .ok []

/-- Joins the shapes of the inputs from `input` on to the dimensions so far. One input of unknown
rank makes the rank of the whole unknown, whatever the inputs behind it. -/
def joinShapes (s : Site) (element : ElementType) (axis : Nat) :
    List Nat → List Dim → Except Error Shape
  | [], dims => .ok (.ranked dims)
  | input :: rest, dims => do
    let actual ← s.element input
    if actual ≠ element then throw (.inference (.concatElementType input actual element))
    match ← s.shape input with
    | .unranked => pure .unranked
    | .ranked next =>
      if next.length ≠ dims.length then
        throw (.inference (.concatRank input next.length dims.length))
      joinShapes s element axis rest (← joinDims axis input 0 dims next)

/-- The values of the given inputs, if all are known and have one dimension. -/
def knownLists (s : Site) : List Nat → Except Error (Option (List Tensor))
  | [] => .ok (some [])
  | input :: rest => do
    match ← s.value input with
    | some t => if t.rank = 1 then return (← knownLists s rest).map (t :: ·) else pure none
    | none => pure none

/-- The elements of all tensors in a row, each taken out by `elements?`. -/
def appendAll {α : Type} (elements? : TensorData → Option (List α)) :
    List Tensor → Except Error (List α)
  | [] => .ok []
  | t :: rest =>
    match elements? t.data with
    | some xs => return xs ++ (← appendAll elements? rest)
    | none => .error (.folding .concatMixed)

/-- The joined elements of tensors of one dimension; the first tensor decides the type. -/
def elements? (ts : List Tensor) : Except Error (Option TensorData) :=
  match ts.head?.map Tensor.data with
  | some (.i64 _) =>
    return some (.i64 (← appendAll (fun | .i64 xs => some xs | _ => none) ts))
  | some (.i32 _) =>
    return some (.i32 (← appendAll (fun | .i32 xs => some xs | _ => none) ts))
  | some (.f32 _) =>
    return some (.f32 (← appendAll (fun | .f32 xs => some xs | _ => none) ts))
  | some (.f64 _) =>
    return some (.f64 (← appendAll (fun | .f64 xs => some xs | _ => none) ts))
  | _ => .ok none

end Concat

/-- The inputs joined along the attribute `axis`, 0 by default. -/
def Operator.concat : Operator where
  name := "Concat"
  types s := do
    if s.inputCount = 0 then throw (.inference .concatEmpty)
    let element ← s.element 0
    let axis ← s.intOr "axis" 0
    match ← s.shape 0 with
    | .unranked => pure [⟨element, .unranked⟩]
    | .ranked dims =>
      let axis ← resolveAxis "Concat" axis dims.length
      pure [⟨element, ← Concat.joinShapes s element axis (List.range' 1 (s.inputCount - 1)) dims⟩]
  fold s := do
    match ← Concat.knownLists s (List.range s.inputCount) with
    | none => pure [none]
    | some ts => return [(← Concat.elements? ts).map Tensor.ofData]

end TensorGraph

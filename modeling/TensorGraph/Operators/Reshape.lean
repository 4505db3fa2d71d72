import TensorGraph.Operator

/-!
# Reshape

A reshape gives the elements of its data a new shape, which it reads as a pattern of integers. One
entry may be -1: it is inferred, so that the number of elements stays the same. Entries of 0 may
stand for the extent that the data has at that position.
-/

namespace TensorGraph

namespace Reshape

/-- The dimension of a pattern entry; an entry to be inferred is dynamic at first. `inferred` says
whether there has been one before. -/
def entryDim (data : Shape) (specialZero inferred : Bool) (position : Nat) (entry : Int) :
    Except Error Dim :=
  if entry = -1 then
    if inferred then .error (.inference .inferredTwice) else .ok .dynamic
  else if entry = 0 ∧ specialZero then
    match data.dim? position with
    | some dim => .ok dim
    | none => .error (.inference (.copiedDimMissing position data))
  else if 0 ≤ entry then .ok (.fixed entry.toNat)
  else .error (.inference (.entryInvalid entry position))

/-- The dimensions of a pattern, counted from `position`. -/
def entryDims (data : Shape) (specialZero : Bool) :
    Bool → Nat → List Int → Except Error (List Dim)
  | _, _, [] => .ok []
  | inferred, position, entry :: rest => do
    let dim ← entryDim data specialZero inferred position entry
    let dims ← entryDims data specialZero (inferred || entry = -1) (position + 1) rest
    pure (dim :: dims)

/-- The dimensions with the one at `index` inferred, if all the others and the data are fixed. -/
def infer (data : Shape) (pattern : List Int) (dims : List Dim) (index : Nat) :
    Except Error (List Dim) :=
  match data.extents?, (dims.eraseIdx index).mapM Dim.extent? with
  | some extents, some known =>
    let total := Shape.count extents
    let rest := Shape.count known
    if rest = 0 ∨ total % rest ≠ 0 then .error (.inference (.entryNotInferable pattern data))
    else .ok (dims.set index (.fixed (total / rest)))
  | _, _ => .ok dims

/-- Fails if the two shapes are fixed and span different numbers of elements. -/
def checkCounts (data target : Shape) : Except Error Unit :=
  match data.extents?, target.extents? with
  | some extents, some extents' =>
    let before := Shape.count extents
    let after := Shape.count extents'
    if before = after then .ok ()
    else .error (.inference (.elementCountsDiffer data before target after))
  | _, _ => .ok ()

/-- The shape that a pattern gives to data of the given shape. -/
def outputShape (data : Shape) (pattern : List Int) (specialZero : Bool) : Except Error Shape := do
  let dims ← entryDims data specialZero false 0 pattern
  let dims ← match pattern.idxOf? (-1) with
    | some index => infer data pattern dims index
    | none => pure dims
  checkCounts data (.ranked dims)
  pure (.ranked dims)

/-- The shape if the pattern is not known: its length is the rank. -/
def shapeOfRank (pattern : Shape) : Shape :=
  match pattern.dim? 0 with
  | some (.fixed rank) => .ofRank rank
  | _ => .unranked

/-- Do entries of 0 copy an extent of the data? -/
def specialZero (s : Site) : Except Error Bool := s.boolOr "special_zero" false

end Reshape

/-- New extents for the same elements. -/
def Operator.reshape : Operator where
  name := "Reshape"
  types s := do
    s.expectInputs 2
    let element ← s.element 0
    let data ← s.shape 0
    let specialZero ← Reshape.specialZero s
    match (← s.value 1).bind Tensor.integers? with
    | some pattern => pure [⟨element, ← Reshape.outputShape data pattern specialZero⟩]
    | none => pure [⟨element, Reshape.shapeOfRank (← s.shape 1)⟩]
  fold s := do
    match ← s.value 0, ← s.value 1 with
    | some data, some target =>
      match target.integers? with
      | none => pure [none]
      | some pattern =>
        let shape ← Reshape.outputShape data.shape pattern (← Reshape.specialZero s)
        pure [shape.extents?.map (⟨data.data, ·⟩)]
    | _, _ => pure [none]

end TensorGraph

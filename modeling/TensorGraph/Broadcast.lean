import TensorGraph.Error

/-!
# Broadcasting

Two shapes are laid over each other from the right, the shorter one filled up with extents of 1.
An extent of 1 is stretched to the extent it meets; `Shape.broadcast` gives the common shape and
`Broadcast.elementwise` the elements of an operation applied place by place. The places are gone
through by an odometer, and each operand is read at the position that its strides give the place.
-/

namespace TensorGraph

namespace Dim

/-- The common dimension of two that lie over each other, or the two extents that clash. A dynamic
dimension can only be 1 or the fixed extent that it meets. -/
def broadcast : Dim → Dim → Except (Nat × Nat) Dim
  | .fixed m, .fixed n =>
    if m = 1 then .ok (.fixed n)
    else if n = 1 then .ok (.fixed m)
    else if m = n then .ok (.fixed m)
    else .error (m, n)
  | .fixed n, .dynamic => .ok (if n = 1 then .dynamic else .fixed n)
  | .dynamic, .fixed n => .ok (if n = 1 then .dynamic else .fixed n)
  | .dynamic, .dynamic => .ok .dynamic

end Dim

namespace Shape

/-- The dimensions filled up with extents of 1 on the left. -/
def padLeft (rank : Nat) (dims : List Dim) : List Dim :=
  List.replicate (rank - dims.length) (.fixed 1) ++ dims

/-- The common dimensions of two lists, or the first clash with its position, counted from
`position`. -/
def broadcastDims : Nat → List Dim → List Dim → Except (Nat × Nat × Nat) (List Dim)
  | position, d :: ds, e :: es =>
    match d.broadcast e with
    | .error clash => .error (position, clash)
    | .ok dim =>
      match broadcastDims (position + 1) ds es with
      | .error clash => .error clash
      | .ok dims => .ok (dim :: dims)
  | _, _, _ => .ok []

/-- The common shape of two shapes; it has unknown rank if one of them has. -/
def broadcast : Shape → Shape → Except Error Shape
  | ranked ds, ranked es =>
    let rank := max ds.length es.length
    match broadcastDims 0 (padLeft rank ds) (padLeft rank es) with
    | .ok dims => .ok (ranked dims)
    | .error (position, m, n) =>
      .error (.inference (.notBroadcastable (ranked ds) (ranked es) position m n))
  | _, _ => .ok unranked

/-- The common extents of two lists of extents. -/
def broadcastExtents (a b : List Nat) : Except Error (List Nat) :=
  match broadcast (ofExtents a) (ofExtents b) with
  | .error e => .error e
  | .ok shape =>
    match shape.extents? with
    | some extents => .ok extents
    | none => .error (.inference .broadcastNotFixed)

end Shape

namespace Broadcast

/-- One more axis in front: how many elements the axes span, and the strides along them. An axis of
extent 1 is stretched, so that going along it does not move. -/
def addAxis (extent : Nat) : Nat × List Nat → Nat × List Nat
  | (span, strides) => (span * extent, (if extent = 1 then 0 else span) :: strides)

/-- How far apart, in row-major order, neighbours along each axis are. -/
def strides (extents : List Nat) : List Nat := (extents.foldr addAxis (1, [])).2

/-- The strides over a shape of higher rank, along whose further axes nothing moves either. -/
def stridesOver (rank : Nat) (extents : List Nat) : List Nat :=
  List.replicate (rank - extents.length) 0 ++ strides extents

/-- The position that the place has under the given strides. -/
def position : List Nat → List Nat → Nat
  | stride :: strides, i :: place => i * stride + position strides place
  | _, _ => 0

/-- The odometer turned on by one: the last axis moves, and an axis that has come to the end of its
extent starts again and moves the one before it. The answer says whether all have started again. -/
def advance : List Nat → List Nat → Bool × List Nat
  | extent :: extents, i :: place =>
    match advance extents place with
    | (true, rest) => if i + 1 < extent then (false, (i + 1) :: rest) else (true, 0 :: rest)
    | (false, rest) => (false, i :: rest)
  | _, _ => (true, [])

/-- The places that the odometer shows before each of its next turns, after those seen so far. -/
def readings (extents : List Nat) : Nat → List Nat → Array (List Nat) → Array (List Nat)
  | 0, _, seen => seen
  | turns + 1, place, seen => readings extents turns (advance extents place).2 (seen.push place)

/-- All places, in the order in which the odometer shows them. -/
def places (extents : List Nat) : List (List Nat) :=
  (readings extents (Shape.count extents) (List.replicate extents.length 0) #[]).toList

/-- The element of `f` at a place, if the strides lead to elements of both operands. -/
def element? {α : Type} (f : α → α → α) (left right : Array α)
    (leftStrides rightStrides place : List Nat) : Option α := do
  let x ← left[position leftStrides place]?
  let y ← right[position rightStrides place]?
  pure (f x y)

/-- The elements of `f` at one place of the common extents after the other. -/
def sweep {α : Type} (f : α → α → α) (xs : List α) (a : List Nat) (ys : List α) (b : List Nat)
    (common : List Nat) : List α :=
  (places common).filterMap <| element? f xs.toArray ys.toArray (stridesOver common.length a)
    (stridesOver common.length b)

/-- The elements of `f` applied place by place to elements `xs` of extents `a` and `ys` of extents
`b`, whose common extents are `common`. Of equal extents the elements already lie together. -/
def elementwise {α : Type} (f : α → α → α) (xs : List α) (a : List Nat) (ys : List α) (b : List Nat)
    (common : List Nat) : List α :=
  if a = b then List.zipWith f xs ys else sweep f xs a ys b common

end Broadcast

end TensorGraph

import TensorGraph.ElementType
import TensorGraph.Ieee.Arithmetic
import TensorGraph.Shape
import TensorGraph.Text.Quoted

/-!
# Tensors

A tensor is a list of elements in row-major order together with its extents. Two notions of
equality differ on floating-point elements: `=` compares bit patterns, `Tensor.numEq` numbers.
-/

namespace TensorGraph

/-- The elements of a tensor, in row-major order. -/
inductive TensorData where
  | f64 (elements : List Binary64)
  | f32 (elements : List Binary32)
  | i64 (elements : List Int64)
  | i32 (elements : List Int32)
  | u8 (elements : List UInt8)
  | boolean (elements : List Bool)
deriving DecidableEq, Repr

namespace TensorData

/-- The type of the elements. -/
def elementType : TensorData → ElementType
  | f64 _ => .f64
  | f32 _ => .f32
  | i64 _ => .i64
  | i32 _ => .i32
  | u8 _ => .u8
  | boolean _ => .boolean

/-- The number of elements. -/
def length : TensorData → Nat
  | f64 xs => xs.length
  | f32 xs => xs.length
  | i64 xs => xs.length
  | i32 xs => xs.length
  | u8 xs => xs.length
  | boolean xs => xs.length

/-- Equality of the elements as numbers: a NaN equals nothing, the two zeros equal each other. -/
def numEq : TensorData → TensorData → Bool
  | f64 xs, f64 ys => Binary.numEqList xs ys
  | f32 xs, f32 ys => Binary.numEqList xs ys
  | xs, ys => xs = ys

/-- The elements of an integer type as integers. -/
def integers? : TensorData → Option (List Int)
  | i64 xs => some (xs.map Int64.toInt)
  | i32 xs => some (xs.map Int32.toInt)
  | u8 xs => some (xs.map fun x => x.toNat)
  | f64 _ | f32 _ | boolean _ => none

/-- The low `count` bytes of `n`, the lowest first. -/
def littleEndian : Nat → Nat → List UInt8
  | 0, _ => []
  | count + 1, n => UInt8.ofNat n :: littleEndian count (n / 256)

/-- The elements as bytes, the lowest byte of each first. -/
def bytes : TensorData → List UInt8
  | f64 xs => xs.flatMap fun x => littleEndian 8 x.bits.toNat
  | f32 xs => xs.flatMap fun x => littleEndian 4 x.bits.toNat
  | i64 xs => xs.flatMap fun x => littleEndian 8 x.toUInt64.toNat
  | i32 xs => xs.flatMap fun x => littleEndian 4 x.toUInt32.toNat
  | u8 xs => xs
  | boolean xs => xs.map fun x => if x then 1 else 0

end TensorData

/-- A tensor whose elements are known. -/
structure Tensor where
  /-- The elements, in row-major order. -/
  data : TensorData
  /-- The extents. -/
  extents : List Nat
deriving DecidableEq, Repr

namespace Tensor

/-- What is wrong with data that is to become a tensor. -/
inductive Malformation where
  /-- There are more or fewer elements than the extents span. -/
  | length (elements : Nat) (extents : List Nat)
  /-- The elements have another type than the one declared. -/
  | elementType (actual declared : ElementType)
deriving DecidableEq, Repr

/-- What is reported of a malformation. -/
def Malformation.message : Malformation → String
  | length elements extents =>
    let shape := Text.bracketed (extents.map toString)
    let product := Shape.count extents
    s!"Data length {elements} doesn't match shape {shape} (product = {product})"
  | elementType actual declared =>
    "Data type " ++ actual.label ++ " doesn't match declared dtype " ++ declared.label

/-- The type of the elements. -/
def elementType (t : Tensor) : ElementType := t.data.elementType

/-- The tensor of the given data, extents and element type, if they agree. -/
def build (data : TensorData) (extents : List Nat) (declared : ElementType) :
    Except Malformation Tensor :=
  if data.length ≠ Shape.count extents then .error (.length data.length extents)
  else if data.elementType ≠ declared then .error (.elementType data.elementType declared)
  else .ok ⟨data, extents⟩

theorem build_eq_ok_iff {data : TensorData} {extents : List Nat} {declared : ElementType}
    {t : Tensor} :
    build data extents declared = .ok t ↔
      data.length = Shape.count extents ∧ data.elementType = declared ∧ t = ⟨data, extents⟩ := by
  unfold build
  split
  · simp_all
  · split <;> simp_all [eq_comm]

/-- Are there as many elements as the extents span? -/
def WellFormed (t : Tensor) : Prop := t.data.length = Shape.count t.extents

instance (t : Tensor) : Decidable t.WellFormed := inferInstanceAs (Decidable (_ = _))

theorem wellFormed_of_build {data : TensorData} {extents : List Nat} {declared : ElementType}
    {t : Tensor} (h : build data extents declared = .ok t) : t.WellFormed := by
  obtain ⟨length, _, rfl⟩ := build_eq_ok_iff.1 h
  exact length

/-- The elements as a tensor of one dimension. -/
def ofData (data : TensorData) : Tensor := ⟨data, [data.length]⟩

theorem wellFormed_ofData (data : TensorData) : (ofData data).WellFormed := by
  simp [WellFormed, ofData, Shape.count]

/-- The integers as a tensor of one dimension. -/
def ofInts (xs : List Int) : Tensor := ofData (.i64 (xs.map Int64.ofInt))

/-- The tensor of the same elements with other extents, if these span as many elements. -/
def reshape (t : Tensor) (extents : List Nat) : Except Malformation Tensor :=
  build t.data extents t.elementType

/-- The number of elements. -/
def length (t : Tensor) : Nat := t.data.length

/-- The number of dimensions. -/
def rank (t : Tensor) : Nat := t.extents.length

/-- The shape. -/
def shape (t : Tensor) : Shape := .ofExtents t.extents

/-- Equality of extents, element type and elements, the elements compared as numbers. -/
def numEq (a b : Tensor) : Bool := a.data.numEq b.data && a.extents = b.extents

/-- The elements of a tensor of an integer type. -/
def integers? (t : Tensor) : Option (List Int) := t.data.integers?

end Tensor

end TensorGraph

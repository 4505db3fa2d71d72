import TensorGraph.Error

/-!
# Conversion of elements

A conversion between two element types goes through the numbers of 64 bits, so that a large
integer may be rounded on its way to another integer type. A number becomes an integer by cutting
off its fraction and clamping to the range of the type.
-/

namespace TensorGraph

namespace TensorData

/-- The elements as numbers of 64 bits. -/
def toBinary64 : TensorData → List Binary64
  | f64 xs => xs
  | f32 xs => xs.map (Binary.convert .double)
  | i64 xs => xs.map fun x => .ofInt x.toInt
  | i32 xs => xs.map fun x => .ofInt x.toInt
  | u8 xs => xs.map fun x => .ofInt x.toNat
  | boolean xs => xs.map fun x => .ofInt (if x then 1 else 0)

/-- The numbers as elements of the given type; there are no elements of 16 bits. -/
def ofBinary64? (xs : List Binary64) : ElementType → Option TensorData
  | .f64 => some (.f64 xs)
  | .f32 => some (.f32 (xs.map (Binary.convert .single)))
  | .i64 => some (.i64 (xs.map Binary.toInt64))
  | .i32 => some (.i32 (xs.map Binary.toInt32))
  | .u8 => some (.u8 (xs.map Binary.toUInt8))
  | .boolean => some (.boolean (xs.map fun x => !x.isZero))
  | .f16 => none

end TensorData

/-- The tensor with its elements converted; nothing is converted if it has the type already. -/
def Tensor.cast (t : Tensor) (target : ElementType) : Except Error Tensor :=
  if t.elementType = target then .ok t
  else
    match TensorData.ofBinary64? t.data.toBinary64 target with
    | some data => .ok ⟨data, t.extents⟩
    | none => .error (.folding (.castUnsupported t.elementType target))

end TensorGraph

/-!
# Element types

The types that the elements of a tensor may have, with their names and sizes.
-/

namespace TensorGraph

/-- The type of the elements of a tensor. -/
inductive ElementType where
  | f64
  | f32
  | f16
  | i64
  | i32
  | u8
  | boolean
deriving DecidableEq, Repr

namespace ElementType

/-- Every element type. -/
def all : List ElementType := [f64, f32, f16, i64, i32, u8, boolean]

/-- The size of one element in bytes. -/
def size : ElementType → Nat
  | f64 | i64 => 8
  | f32 | i32 => 4
  | f16 => 2
  | u8 | boolean => 1

/-- The name by which attributes refer to the type. -/
def name : ElementType → String
  | f64 => "f64"
  | f32 => "f32"
  | f16 => "f16"
  | i64 => "i64"
  | i32 => "i32"
  | u8 => "u8"
  | boolean => "boolean"

/-- The type of the given name. -/
def ofName? (s : String) : Option ElementType :=
  all.find? (·.name = s)

/-- The name by which reports on values refer to the type. -/
def label : ElementType → String
  | f64 => "F64"
  | f32 => "F32"
  | f16 => "F16"
  | i64 => "I64"
  | i32 => "I32"
  | u8 => "U8"
  | boolean => "Bool"

/-- Is it a floating-point type? -/
def isFloat : ElementType → Bool
  | f64 | f32 | f16 => true
  | i64 | i32 | u8 | boolean => false

theorem ofName?_name (t : ElementType) : ofName? t.name = some t := by
  cases t <;> rfl

end ElementType

end TensorGraph

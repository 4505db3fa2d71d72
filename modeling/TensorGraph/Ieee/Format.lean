/-!
# Binary floating-point formats

A number of a binary interchange format is kept as its bit pattern, so that every pattern, the
payload of a NaN included, has a value of its own and equality of patterns is decidable.
`Binary.datum` says what a pattern stands for.
-/

namespace TensorGraph

/-- A binary interchange format: a sign bit, an exponent field and a fraction field. -/
structure BinaryFormat where
  /-- Width of the exponent field. -/
  exponentBits : Nat
  /-- Width of the fraction field. -/
  fractionBits : Nat
deriving DecidableEq, Repr

namespace BinaryFormat

/-- The format of 32 bits. -/
def single : BinaryFormat := ⟨8, 23⟩

/-- The format of 64 bits. -/
def double : BinaryFormat := ⟨11, 52⟩

/-- Bits below the sign. -/
abbrev magnitudeBits (f : BinaryFormat) : Nat := f.exponentBits + f.fractionBits

/-- Bits of a whole pattern. -/
abbrev width (f : BinaryFormat) : Nat := f.magnitudeBits + 1

/-- What is added to the exponent of a normal number to get its exponent field. -/
def bias (f : BinaryFormat) : Nat := (1 <<< (f.exponentBits - 1)) - 1

/-- The power of two of the last place of the smallest numbers. -/
def leastExponent (f : BinaryFormat) : Int := 1 - (f.bias : Int) - f.fractionBits

/-- The pattern of infinity below the sign: the exponent field is all ones, the fraction is 0. -/
def infinity (f : BinaryFormat) : Nat := ((1 <<< f.exponentBits) - 1) <<< f.fractionBits

end BinaryFormat

/-- A number of the format `f`, as its bit pattern. -/
structure Binary (f : BinaryFormat) where
  /-- Sign, exponent field and fraction, from the top. -/
  bits : BitVec f.width
deriving DecidableEq, Repr

/-- A number of 32 bits. -/
abbrev Binary32 := Binary .single

/-- A number of 64 bits. -/
abbrev Binary64 := Binary .double

/-- What a bit pattern stands for; a finite number is `± significand · 2 ^ exponent`. -/
inductive Datum where
  /-- Not a number. -/
  | nan
  /-- An infinity. -/
  | infinity (negative : Bool)
  /-- A finite number, with a sign also on zero. -/
  | finite (negative : Bool) (significand : Nat) (exponent : Int)
deriving DecidableEq, Repr

namespace Binary

variable {f : BinaryFormat}

/-- Is the sign bit set? -/
def negative (x : Binary f) : Bool := x.bits.msb

/-- The pattern below the sign. -/
def magnitude (x : Binary f) : Nat := x.bits.toNat % (1 <<< f.magnitudeBits)

/-- The exponent field. -/
def exponentField (x : Binary f) : Nat := x.magnitude >>> f.fractionBits

/-- The fraction field. -/
def fraction (x : Binary f) : Nat := x.magnitude % (1 <<< f.fractionBits)

/-- The value of the pattern. Normal numbers have a leading one that is not stored. -/
def datum (x : Binary f) : Datum :=
  if x.magnitude > f.infinity then .nan
  else if x.magnitude = f.infinity then .infinity x.negative
  else if x.exponentField = 0 then .finite x.negative x.fraction f.leastExponent
  else
    .finite x.negative ((1 <<< f.fractionBits) + x.fraction)
      (f.leastExponent + (x.exponentField - 1))

/-- The number with the given sign and pattern below it. -/
def ofMagnitude (negative : Bool) (magnitude : Nat) : Binary f :=
  ⟨BitVec.ofNat f.width ((if negative then 1 <<< f.magnitudeBits else 0) + magnitude)⟩

/-- The zero of the given sign. -/
def zero (negative : Bool) : Binary f := ofMagnitude negative 0

/-- The infinity of the given sign. -/
def infinity (negative : Bool) : Binary f := ofMagnitude negative f.infinity

/-- The quiet NaN with an empty payload, which every operation without a value gives. -/
def nan : Binary f := ofMagnitude false (f.infinity + (1 <<< (f.fractionBits - 1)))

/-- The number with the opposite sign. -/
def neg (x : Binary f) : Binary f := ofMagnitude (!x.negative) x.magnitude

instance : Neg (Binary f) := ⟨neg⟩

/-- Is the pattern that of no number? -/
def isNan (x : Binary f) : Bool := x.magnitude > f.infinity

/-- Is the pattern one of the two zeros? -/
def isZero (x : Binary f) : Bool := x.magnitude = 0

/-- Equality of numbers: a NaN equals nothing, the two zeros equal each other. -/
def numEq (x y : Binary f) : Bool :=
  !x.isNan && !y.isNan && (x = y || (x.isZero && y.isZero))

/-- Equality of lists of numbers, place by place. -/
def numEqList : List (Binary f) → List (Binary f) → Bool
  | [], [] => true
  | x :: xs, y :: ys => x.numEq y && numEqList xs ys
  | _, _ => false

end Binary

end TensorGraph

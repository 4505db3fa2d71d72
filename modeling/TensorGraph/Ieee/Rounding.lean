import TensorGraph.Ieee.Format

/-!
# Rounding to the nearest number

Every operation computes its exact rational result and rounds it once: `BinaryFormat.nearest` is
the magnitude of the number of the format nearest to a quotient, a tie going to the even pattern.
-/

namespace TensorGraph

/-- The integer nearest to `n / d`, a tie going to the even one. -/
def roundHalfEven (n d : Nat) : Nat :=
  let q := n / d
  let r := n % d
  if 2 * r < d ∨ (2 * r = d ∧ q % 2 = 0) then q else q + 1

/-- The power of two at or below `n / d`: `2 ^ log2Quotient n d ≤ n / d`, and twice it is above. -/
def log2Quotient (n d : Nat) : Int :=
  let k : Int := (n.log2 : Int) - d.log2
  if d <<< k.toNat ≤ n <<< (-k).toNat then k else k - 1

namespace BinaryFormat

/-- The power of two of the last place kept of `n / d`. -/
def lastPlace (f : BinaryFormat) (n d : Nat) : Int :=
  max (log2Quotient n d - f.fractionBits) f.leastExponent

/-- The pattern below the sign of the number nearest to `n / d`, ties to even. The significand,
leading one included, is added to the exponent field, so that a carry out of it, as well as a
number without a leading one, needs no case of its own. -/
def nearest (f : BinaryFormat) (n d : Nat) : Nat :=
  if n = 0 then 0 else
    let e := f.lastPlace n d
    let q := roundHalfEven (n <<< (-e).toNat) (d <<< e.toNat)
    min (((e - f.leastExponent).toNat <<< f.fractionBits) + q) f.infinity

end BinaryFormat

namespace Binary

variable {f : BinaryFormat}

/-- The number nearest to `± n / d`. -/
def ofQuotient (negative : Bool) (n d : Nat) : Binary f :=
  ofMagnitude negative (f.nearest n d)

/-- The number nearest to `± m · 2 ^ e`. -/
def ofScaled (negative : Bool) (m : Nat) (e : Int) : Binary f :=
  ofQuotient negative (m <<< e.toNat) (1 <<< (-e).toNat)

/-- The number nearest to an integer. -/
def ofInt (i : Int) : Binary f :=
  ofScaled (i < 0) i.natAbs 0

end Binary

end TensorGraph

import TensorGraph.Ieee.Rounding

/-!
# Arithmetic and conversions

Sum, difference, product and quotient round the exact result once; `ceil`, `floor` and conversions
to a wider format are exact. Conversions to integers cut off the fraction and clamp.
-/

namespace TensorGraph.Binary

variable {f : BinaryFormat}

/-- The integer `± m`. -/
def signed (negative : Bool) (m : Nat) : Int := if negative then -m else m

/-- The sum. Opposite numbers add to the positive zero. -/
def add (x y : Binary f) : Binary f :=
  match x.datum, y.datum with
  | .nan, _ => nan
  | _, .nan => nan
  | .infinity s, .infinity t => if s = t then infinity s else nan
  | .infinity s, .finite .. => infinity s
  | .finite .., .infinity t => infinity t
  | .finite s m e, .finite t n k =>
    let low := min e k
    let total := signed s (m <<< (e - low).toNat) + signed t (n <<< (k - low).toNat)
    if total = 0 then zero (s && t) else ofScaled (total < 0) total.natAbs low

/-- The difference. -/
def sub (x y : Binary f) : Binary f := add x (-y)

/-- The product. -/
def mul (x y : Binary f) : Binary f :=
  match x.datum, y.datum with
  | .nan, _ => nan
  | _, .nan => nan
  | .infinity s, .infinity t => infinity (s != t)
  | .infinity s, .finite t n _ => if n = 0 then nan else infinity (s != t)
  | .finite s m _, .infinity t => if m = 0 then nan else infinity (s != t)
  | .finite s m e, .finite t n k => ofScaled (s != t) (m * n) (e + k)

/-- The quotient. -/
def div (x y : Binary f) : Binary f :=
  match x.datum, y.datum with
  | .nan, _ => nan
  | _, .nan => nan
  | .infinity _, .infinity _ => nan
  | .infinity s, .finite t _ _ => infinity (s != t)
  | .finite s _ _, .infinity t => zero (s != t)
  | .finite s m e, .finite t n k =>
    if n = 0 then
      if m = 0 then nan else infinity (s != t)
    else
      ofQuotient (s != t) (m <<< (e - k).toNat) (n <<< (k - e).toNat)

instance : Add (Binary f) := ⟨add⟩
instance : Sub (Binary f) := ⟨sub⟩
instance : Mul (Binary f) := ⟨mul⟩
instance : Div (Binary f) := ⟨div⟩

/-- Rounds to an integral number, away from zero if `away` holds of the sign. -/
def toIntegral (away : Bool → Bool) (x : Binary f) : Binary f :=
  match x.datum with
  | .nan => nan
  | .infinity s => infinity s
  | .finite s m e =>
    if 0 ≤ e then x else
      let unit := 1 <<< (-e).toNat
      let carry := if m % unit ≠ 0 && away s then 1 else 0
      ofScaled s (m / unit + carry) 0

/-- The least integral number that is not below `x`. A zero keeps the sign of `x`. -/
def ceil (x : Binary f) : Binary f := toIntegral (fun negative => !negative) x

/-- The greatest integral number that is not above `x`. A zero keeps the sign of `x`. -/
def floor (x : Binary f) : Binary f := toIntegral (fun negative => negative) x

/-- The number itself if it is positive, else zero; a NaN also gives zero. -/
def positivePart (x : Binary f) : Binary f :=
  match x.datum with
  | .infinity false => x
  | .finite false m _ => if m = 0 then zero false else x
  | _ => zero false

/-- The nearest number of another format. -/
def convert {f : BinaryFormat} (g : BinaryFormat) (x : Binary f) : Binary g :=
  match x.datum with
  | .nan => nan
  | .infinity s => infinity s
  | .finite s m e => ofScaled s m e

/-- The integer part, clamped to the range from `low` to `high`; a NaN gives zero. -/
def truncate (low high : Int) (x : Binary f) : Int :=
  match x.datum with
  | .nan => 0
  | .infinity true => low
  | .infinity false => high
  | .finite s m e => max low (min high (signed s ((m <<< e.toNat) >>> (-e).toNat)))

/-- The integer part, clamped to 64 bits. -/
def toInt64 (x : Binary f) : Int64 :=
  .ofInt (x.truncate Int64.minValue.toInt Int64.maxValue.toInt)

/-- The integer part, clamped to 32 bits. -/
def toInt32 (x : Binary f) : Int32 :=
  .ofInt (x.truncate Int32.minValue.toInt Int32.maxValue.toInt)

/-- The integer part, clamped to a byte. -/
def toUInt8 (x : Binary f) : UInt8 :=
  .ofNat (x.truncate 0 255).toNat

end TensorGraph.Binary

import TensorGraph.Decimal.Shortest

/-!
# Written numbers

The text of a binary number: its shortest decimal, laid out with a point or with an exponent.
-/

namespace TensorGraph.Decimal

/-- How numbers are laid out. -/
structure Layout where
  /-- Whole numbers end in `.0`. -/
  wholeMark : Bool
  /-- The exponents of the first digit that are written with a point; all, if there is no range. -/
  positional : Option (Int × Int)

/-- Digits as they stand, never an exponent. -/
def Layout.plain : Layout := ⟨false, none⟩

/-- A point in every number, an exponent below `10 ^ -4` and from `10 ^ 16` on. -/
def Layout.marked : Layout := ⟨true, some (-4, 15)⟩

/-- The decimal with a point where one is needed. -/
def pointText (d : Decimal) (wholeMark : Bool) : String :=
  let digits := Nat.toDigits 10 d.digits
  if 0 ≤ d.exponent then
    String.ofList (digits ++ List.replicate d.exponent.toNat '0') ++
      (if wholeMark then ".0" else "")
  else
    let places := (-d.exponent).toNat
    let padded := List.replicate (places + 1 - digits.length) '0' ++ digits
    let whole := padded.length - places
    String.ofList (padded.take whole ++ '.' :: padded.drop whole)

/-- The decimal with one digit before the point and an exponent. -/
def exponentText (d : Decimal) : String :=
  let digits := Nat.toDigits 10 d.digits
  let fraction := digits.drop 1
  let point := if fraction.isEmpty then [] else '.' :: fraction
  String.ofList (digits.take 1 ++ point) ++ "e" ++ toString (d.exponent + fraction.length)

/-- The text of a positive decimal. -/
def Layout.text (layout : Layout) (d : Decimal) : String :=
  match layout.positional with
  | none => d.pointText layout.wholeMark
  | some (least, greatest) =>
    let first := d.exponent + (Nat.toDigits 10 d.digits).length - 1
    if least ≤ first ∧ first ≤ greatest then d.pointText layout.wholeMark else d.exponentText

end TensorGraph.Decimal

namespace TensorGraph

/-- The text of a number; a negative zero keeps its sign, a NaN has none. -/
def Binary.text {f : BinaryFormat} (layout : Decimal.Layout) (x : Binary f) : String :=
  let sign (negative : Bool) : String := if negative then "-" else ""
  match x.datum with
  | .nan => "NaN"
  | .infinity negative => sign negative ++ "inf"
  | .finite negative m e =>
    if m = 0 then sign negative ++ (if layout.wholeMark then "0.0" else "0")
    else sign negative ++ layout.text (Decimal.shortest f m e)

end TensorGraph

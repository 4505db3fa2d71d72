import Mathlib.Tactic.Positivity
import TensorGraph.Ieee.Arithmetic

/-!
# The sign of a zero

Inference takes a number for unchanged if it equals the old one as a number, so that a zero may
stand where the one of the other sign was. `Binary.plain` forgets the sign of a zero. The product,
the rounding up and the integer part of numbers depend on their plain forms only, and so does a
quotient on that of the dividend.
-/

namespace TensorGraph.Binary

variable {f : BinaryFormat} {x x' y y' : Binary f}

/-- The number without the sign of a zero. -/
def plain (x : Binary f) : Binary f := if x.isZero then zero false else x

theorem magnitude_ofMagnitude (negative : Bool) {m : Nat} (h : m < 1 <<< f.magnitudeBits) :
    (ofMagnitude (f := f) negative m).magnitude = m := by
  rw [Nat.shiftLeft_eq, Nat.one_mul] at h
  have width : 2 ^ f.width = 2 * 2 ^ f.magnitudeBits := by
    rw [BinaryFormat.width, Nat.pow_succ, Nat.mul_comm]
  simp only [magnitude, ofMagnitude, BitVec.toNat_ofNat, Nat.shiftLeft_eq, Nat.one_mul, width]
  cases negative with
  | false =>
    have low : m % (2 * 2 ^ f.magnitudeBits) = m := Nat.mod_eq_of_lt (by omega)
    rw [if_neg (by simp), Nat.zero_add, low, Nat.mod_eq_of_lt h]
  | true =>
    have low : (2 ^ f.magnitudeBits + m) % (2 * 2 ^ f.magnitudeBits) = 2 ^ f.magnitudeBits + m :=
      Nat.mod_eq_of_lt (by omega)
    rw [if_pos rfl, low, Nat.add_mod_left, Nat.mod_eq_of_lt h]

theorem isZero_zero (negative : Bool) : (zero (f := f) negative).isZero := by
  have magnitude := magnitude_ofMagnitude (f := f) negative (m := 0) (by simp [Nat.shiftLeft_eq])
  simp [isZero, zero, magnitude]

theorem plain_of_isZero (h : x.isZero) : x.plain = zero false := by
  rw [plain, if_pos h]

theorem plain_eq_plain_iff : x.plain = y.plain ↔ x = y ∨ x.isZero ∧ y.isZero := by
  have zeros := isZero_zero (f := f) false
  simp only [plain]
  split <;> split
  · next hx hy => simp [hx, hy]
  · next hx hy =>
    constructor
    · rintro rfl
      exact absurd zeros hy
    · rintro (rfl | ⟨_, hy'⟩)
      · exact absurd hx hy
      · exact absurd hy' hy
  · next hx hy =>
    constructor
    · rintro rfl
      exact absurd zeros hx
    · rintro (rfl | ⟨hx', _⟩)
      · exact absurd hy hx
      · exact absurd hx' hx
  · next hx hy => simp [hx]

theorem plain_eq_of_not_isZero (h : ¬y.isZero) : x.plain = y.plain ↔ x = y := by
  rw [plain_eq_plain_iff, or_iff_left fun both => h both.2]

/-- Numbers that are equal as numbers have the same plain form. -/
theorem plain_eq_of_numEq (h : x.numEq y) : x.plain = y.plain := by
  rw [plain_eq_plain_iff]
  simp only [numEq, Bool.and_eq_true, Bool.or_eq_true, decide_eq_true_eq] at h
  exact h.2

theorem isZero_ofQuotient_zero (negative : Bool) (d : Nat) :
    (ofQuotient (f := f) negative 0 d).isZero := by
  rw [ofQuotient, BinaryFormat.nearest, if_pos rfl]
  exact isZero_zero negative

theorem isZero_ofScaled_zero (negative : Bool) (e : Int) :
    (ofScaled (f := f) negative 0 e).isZero := by
  rw [ofScaled, Nat.zero_shiftLeft]
  exact isZero_ofQuotient_zero negative _

end TensorGraph.Binary

/-! ### Numbers of 64 bits -/

namespace TensorGraph.Binary

variable {x x' y y' : Binary64}

theorem infinity_double_lt :
    BinaryFormat.double.infinity < 1 <<< BinaryFormat.double.magnitudeBits := by
  decide

theorem datum_of_isZero (h : x.isZero) : ∃ negative e, x.datum = .finite negative 0 e := by
  have magnitude : x.magnitude = 0 := by simpa [isZero] using h
  refine ⟨x.negative, BinaryFormat.double.leastExponent, ?_⟩
  have field : x.exponentField = 0 := by simp [exponentField, magnitude]
  have fraction : x.fraction = 0 := by simp [Binary.fraction, magnitude]
  have large : 0 < BinaryFormat.double.infinity := by decide
  rw [datum, magnitude, field, fraction, if_neg (by omega), if_neg (by omega), if_pos rfl]

/-- Two zeros, or the same number, give the same under what does so for two zeros. -/
theorem congr_of_plain_eq {α : Sort*} {F : Binary64 → α} (h : x.plain = x'.plain)
    (zeros : x.isZero → x'.isZero → F x = F x') : F x = F x' := by
  rcases plain_eq_plain_iff.1 h with rfl | ⟨hx, hx'⟩
  · rfl
  · exact zeros hx hx'

theorem plain_mul_left (h : x.plain = x'.plain) (y : Binary64) :
    (x * y).plain = (x' * y).plain := by
  apply congr_of_plain_eq (F := fun x => (x * y).plain) h
  intro hx hx'
  obtain ⟨s, e, datum⟩ := datum_of_isZero hx
  obtain ⟨s', e', datum'⟩ := datum_of_isZero hx'
  change (mul x y).plain = (mul x' y).plain
  simp only [mul, datum, datum']
  cases y.datum with
  | nan => rfl
  | infinity t => simp
  | finite t n k =>
    simp only [Nat.zero_mul]
    rw [plain_of_isZero (isZero_ofScaled_zero _ _), plain_of_isZero (isZero_ofScaled_zero _ _)]

theorem plain_mul_right (x : Binary64) (h : y.plain = y'.plain) :
    (x * y).plain = (x * y').plain := by
  apply congr_of_plain_eq (F := fun y => (x * y).plain) h
  intro hy hy'
  obtain ⟨s, e, datum⟩ := datum_of_isZero hy
  obtain ⟨s', e', datum'⟩ := datum_of_isZero hy'
  change (mul x y).plain = (mul x y').plain
  simp only [mul, datum, datum']
  cases x.datum with
  | nan => rfl
  | infinity t => simp
  | finite t n k =>
    simp only [Nat.mul_zero]
    rw [plain_of_isZero (isZero_ofScaled_zero _ _), plain_of_isZero (isZero_ofScaled_zero _ _)]

theorem plain_mul (hx : x.plain = x'.plain) (hy : y.plain = y'.plain) :
    (x * y).plain = (x' * y').plain :=
  (plain_mul_left hx y).trans (plain_mul_right x' hy)

theorem plain_div_left (h : x.plain = x'.plain) (y : Binary64) :
    (x / y).plain = (x' / y).plain := by
  apply congr_of_plain_eq (F := fun x => (x / y).plain) h
  intro hx hx'
  obtain ⟨s, e, datum⟩ := datum_of_isZero hx
  obtain ⟨s', e', datum'⟩ := datum_of_isZero hx'
  change (div x y).plain = (div x' y).plain
  simp only [div, datum, datum']
  cases y.datum with
  | nan => rfl
  | infinity t => rw [plain_of_isZero (isZero_zero _), plain_of_isZero (isZero_zero _)]
  | finite t n k =>
    by_cases hn : n = 0
    · simp [hn]
    · simp only [hn, if_false, Nat.zero_shiftLeft]
      rw [plain_of_isZero (isZero_ofQuotient_zero _ _),
        plain_of_isZero (isZero_ofQuotient_zero _ _)]

theorem isZero_ceil (h : x.isZero) : x.ceil.isZero := by
  obtain ⟨s, e, datum⟩ := datum_of_isZero h
  simp only [ceil, toIntegral, datum]
  split
  · exact h
  · simp only [Nat.zero_mod, ne_eq, not_true_eq_false, decide_false, Bool.false_and, Nat.zero_div,
      Bool.false_eq_true, if_false, Nat.add_zero]
    exact isZero_ofScaled_zero _ _

theorem plain_ceil (h : x.plain = x'.plain) : x.ceil.plain = x'.ceil.plain := by
  apply congr_of_plain_eq (F := fun x => x.ceil.plain) h
  intro hx hx'
  rw [plain_of_isZero (isZero_ceil hx), plain_of_isZero (isZero_ceil hx')]

theorem truncate_eq (h : x.plain = x'.plain) (low high : Int) :
    x.truncate low high = x'.truncate low high := by
  apply congr_of_plain_eq (F := fun x => x.truncate low high) h
  intro hx hx'
  obtain ⟨s, e, datum⟩ := datum_of_isZero hx
  obtain ⟨s', e', datum'⟩ := datum_of_isZero hx'
  simp [truncate, datum, datum', signed]

theorem toInt64_eq (h : x.plain = x'.plain) : x.toInt64 = x'.toInt64 := by
  rw [toInt64, toInt64, truncate_eq h]

theorem toInt32_eq (h : x.plain = x'.plain) : x.toInt32 = x'.toInt32 := by
  rw [toInt32, toInt32, truncate_eq h]

/-! ### Integers as numbers -/

theorem nearest_pos {n : Nat} (h : n ≠ 0) : 0 < BinaryFormat.double.nearest n 1 := by
  rw [BinaryFormat.nearest, if_neg h]
  have large : 0 < BinaryFormat.double.infinity := by decide
  refine Nat.lt_min.2 ⟨?_, large⟩
  by_cases e : BinaryFormat.double.lastPlace n 1 ≤ 0
  · -- nothing is cut off
    apply Nat.add_pos_right
    have whole : (1 : Nat) <<< (BinaryFormat.double.lastPlace n 1).toNat = 1 := by
      rw [Int.toNat_of_nonpos e, Nat.shiftLeft_zero]
    have shifted : 0 < n <<< (-BinaryFormat.double.lastPlace n 1).toNat := by
      rw [Nat.shiftLeft_eq]
      positivity
    rw [whole, roundHalfEven]
    simp only [Nat.div_one]
    split <;> omega
  · -- the exponent is that of a normal number
    apply Nat.add_pos_left
    have least : BinaryFormat.double.leastExponent ≤ 0 := by decide
    rw [Nat.shiftLeft_eq]
    apply Nat.mul_pos
    · omega
    · exact Nat.two_pow_pos _

/-- An integer other than zero does not become a zero. -/
theorem isZero_ofInt {i : Int} (h : i ≠ 0) : ¬(ofInt i : Binary64).isZero := by
  have place : (0 : Int).toNat = 0 := rfl
  have bound :
      BinaryFormat.double.nearest i.natAbs 1 < 1 <<< BinaryFormat.double.magnitudeBits := by
    refine Nat.lt_of_le_of_lt ?_ infinity_double_lt
    rw [BinaryFormat.nearest, if_neg (by omega)]
    exact Nat.min_le_right _ _
  have positive := nearest_pos (n := i.natAbs) (by omega)
  rw [ofInt, ofScaled, ofQuotient, isZero, neg_zero, place, Nat.shiftLeft_zero, Nat.shiftLeft_zero,
    magnitude_ofMagnitude _ bound]
  simp only [decide_eq_true_eq]
  omega

end TensorGraph.Binary

import TensorGraph.Batch.Ratio
import TensorGraph.Proofs.Ieee.Nearest

/-!
# Scaled batches as integers

The product and the quotient that a scaled batch is computed from are rounded to 53 binary places
before the result is rounded up (`relaxedBatch_eq_rounded`). Nothing is lost as long as the product
has a place for each of its bits: the quotient is then rounded to the side of each integer that it
is on, since one that is no integer is more than half a place above the integer below it
(`ceil_roundBits`). A product beyond `2 ^ 53` may lose its last bit, though the batches are far
smaller, and then the result may be too small or too large.
-/

namespace TensorGraph

/-- A quotient that is no integer is more than half above the integer below it, both in units of
the last place, if the dividend has no more places than are kept. -/
theorem floor_add_half_lt {q : ℚ} {p i : ℤ} {bits j : ℕ} (hi : 0 < i) (product : q * i = p)
    (h : p ≤ 2 ^ (bits + 1)) (fractional : q ∉ Set.range Int.cast)
    (significand : 2 ^ bits ≤ q * 2 ^ j) : ((⌊q⌋ * 2 ^ j : ℤ) : ℚ) + 1 / 2 < q * 2 ^ j := by
  have hi' : (0 : ℚ) < i := by exact_mod_cast hi
  have unit : (0 : ℚ) < 2 ^ j := by positivity
  have positive : 0 < q := by
    have := lt_of_lt_of_le (by positivity : (0 : ℚ) < 2 ^ bits) significand
    exact (mul_pos_iff_of_pos_right unit).1 this
  have dividend : q * i ≤ 2 * 2 ^ bits := by
    rw [product, ← pow_succ']
    exact_mod_cast h
  have fract : 0 < Int.fract q := Int.fract_pos.2 fun whole => fractional ⟨⌊q⌋, whole.symm⟩
  -- the remainder of the division is at least one
  have remainder : 1 ≤ Int.fract q * i := by
    have whole : Int.fract q * i = (p - ⌊q⌋ * i : ℤ) := by
      rw [Int.fract, sub_mul, product]
      push_cast
      rfl
    have above : (0 : ℚ) < (p - ⌊q⌋ * i : ℤ) := whole ▸ mul_pos fract hi'
    rw [whole]
    exact_mod_cast above
  have divisor : i ≤ 2 * (2 : ℚ) ^ j := by
    have : q * i ≤ q * (2 * 2 ^ j) := by linarith
    exact le_of_mul_le_mul_left this positive
  have half : 1 / 2 ≤ Int.fract q * 2 ^ j := by
    have : Int.fract q * i ≤ Int.fract q * (2 * 2 ^ j) :=
      mul_le_mul_of_nonneg_left divisor (Int.fract_nonneg q)
    linarith
  have parts : q * 2 ^ j = ((⌊q⌋ * 2 ^ j : ℤ) : ℚ) + Int.fract q * 2 ^ j := by
    rw [Int.fract]
    push_cast
    ring
  rw [parts]
  rcases half.lt_or_eq with more | exactly
  · linarith
  · -- exactly half above an integer would be a power of two
    have divisor' : 2 * (2 : ℚ) ^ j ≤ i := by
      have : Int.fract q * (2 * 2 ^ j) ≤ Int.fract q * i := by linarith
      exact le_of_mul_le_mul_left this fract
    have power : q * 2 ^ j = 2 ^ bits := by
      rw [divisor.antisymm divisor'] at dividend
      linarith
    have odd : ((2 * (⌊q⌋ * 2 ^ j) + 1 : ℤ) : ℚ) = (2 * 2 ^ bits : ℤ) := by
      push_cast at parts ⊢
      linarith
    have := Int.cast_injective odd
    omega

/-- The quotient of a number with no more places than are kept is not rounded across an
integer. -/
theorem ceil_roundBits {bits : ℕ} {p i : ℤ} (hp : 0 < p) (h : p ≤ 2 ^ (bits + 1)) (hi : 0 < i) :
    ⌈roundBits (bits + 1) (p / i)⌉ = ⌈(p / i : ℚ)⌉ := by
  have hp' : (0 : ℚ) < p := by exact_mod_cast hp
  have hi' : (0 : ℚ) < i := by exact_mod_cast hi
  obtain ⟨q, hq⟩ : ∃ q : ℚ, q = p / i := ⟨_, rfl⟩
  have product : q * i = p := by rw [hq, div_mul_cancel₀ _ hi'.ne']
  have positive : 0 < q := hq ▸ div_pos hp' hi'
  have bounded : q ≤ 2 ^ (bits + 1) := by
    have : q ≤ p := hq ▸ div_le_self hp'.le (by exact_mod_cast hi)
    exact this.trans (by exact_mod_cast h)
  rw [← hq]
  by_cases integral : q ∈ Set.range Int.cast
  · obtain ⟨k, rfl⟩ := integral
    rw [roundBits_intCast (by omega) (by exact_mod_cast positive) (by exact_mod_cast bounded)]
  · have less : q < 2 ^ ((bits + 1 : ℕ) : ℤ) := by
      rw [zpow_natCast]
      refine bounded.lt_of_ne ?_
      rintro rfl
      exact integral ⟨2 ^ (bits + 1), by push_cast; rfl⟩
    obtain ⟨j, hj⟩ := Int.eq_ofNat_of_zero_le (neg_nonneg.2 (lastBit_nonpos positive less))
    have unit : (0 : ℚ) < 2 ^ j := by positivity
    have place : (2 : ℚ) ^ lastBit (bits + 1) q = (2 ^ j)⁻¹ := by
      rw [← neg_neg (lastBit (bits + 1) q), hj, zpow_neg, zpow_natCast]
    have rounded : roundBits (bits + 1) q = roundEven (q * 2 ^ j) / 2 ^ j := by
      rw [roundBits, place, div_inv_eq_mul, ← div_eq_mul_inv]
    have significand : 2 ^ bits ≤ q * 2 ^ j := by
      have h := @le_div_lastBit (bits + 1) _ positive
      rwa [place, div_inv_eq_mul, Nat.cast_succ, add_sub_cancel_right, zpow_natCast] at h
    have low : ⌊q⌋ * 2 ^ j < roundEven (q * 2 ^ j) :=
      lt_roundEven (floor_add_half_lt hi product h integral significand)
    have high : roundEven (q * 2 ^ j) ≤ ⌈q⌉ * 2 ^ j := by
      refine (roundEven_le_ceil _).trans (Int.ceil_le.2 ?_)
      push_cast
      exact mul_le_mul_of_nonneg_right (Int.le_ceil q) unit.le
    have ceil : ⌈q⌉ = ⌊q⌋ + 1 := (Int.ceil_eq_floor_add_one_iff_notMem q).2 integral
    rw [Int.ceil_eq_iff, rounded, lt_div_iff₀ unit, div_le_iff₀ unit]
    constructor
    · rw [ceil]
      push_cast
      rw [add_sub_cancel_right]
      exact_mod_cast low
    · exact_mod_cast high

/-- The batch `observed · outBatch / inBatch`, rounded up. -/
def ceilBatch (observed inBatch outBatch : ℤ) : ℤ := ⌈(observed * outBatch / inBatch : ℚ)⌉

/-- The scaled batch if the product and the quotient are rounded to 53 binary places before. -/
def roundedBatch (observed inBatch outBatch : ℤ) : ℤ :=
  ⌈roundBits 53 (roundBits 53 (observed * outBatch) / inBatch)⌉

/-! ### Integers -/

section

variable {observed inBatch outBatch : ℤ}

/-- There is room for every sample. -/
theorem mul_le_ceilBatch_mul (hin : 1 ≤ inBatch) :
    observed * outBatch ≤ ceilBatch observed inBatch outBatch * inBatch := by
  have positive : (0 : ℚ) < inBatch := by exact_mod_cast hin
  have above := Int.le_ceil (observed * outBatch / inBatch : ℚ)
  rw [div_le_iff₀ positive] at above
  have room : ((observed * outBatch : ℤ) : ℚ) ≤
      (ceilBatch observed inBatch outBatch * inBatch : ℤ) := by
    rw [Int.cast_mul, Int.cast_mul]
    exact above
  exact Int.cast_le.1 room

/-- The batch that the ratio was taken from is scaled to the other one. -/
theorem ceilBatch_self (hin : 1 ≤ inBatch) : ceilBatch inBatch inBatch outBatch = outBatch := by
  have nonzero : (inBatch : ℚ) ≠ 0 := by
    exact_mod_cast (by omega : inBatch ≠ 0)
  rw [ceilBatch, mul_div_cancel_left₀ _ nonzero, Int.ceil_intCast]

/-- What is scaled from a product with a place for each of its bits is exact. -/
theorem roundedBatch_eq_ceilBatch (hobs : 1 ≤ observed) (hin : 1 ≤ inBatch) (hout : 1 ≤ outBatch)
    (h : observed * outBatch ≤ 2 ^ 53) :
    roundedBatch observed inBatch outBatch = ceilBatch observed inBatch outBatch := by
  have positive : 0 < observed * outBatch := Int.mul_pos hobs hout
  rw [roundedBatch, ceilBatch, ← Int.cast_mul, roundBits_intCast (by norm_num) positive h]
  exact @ceil_roundBits 52 _ _ positive h hin

theorem ceilBatch_le (hin : 1 ≤ inBatch) (h : 0 ≤ observed * outBatch) :
    ceilBatch observed inBatch outBatch ≤ observed * outBatch := by
  rw [ceilBatch, Int.ceil_le, ← Int.cast_mul]
  exact div_le_self (by exact_mod_cast h) (by exact_mod_cast hin)

end

/-- The rounded product of two batches and its quotient by a third are normal numbers. -/
theorem inRange_scaled {a b c : ℤ} (ha : 1 ≤ a ∧ a < 2 ^ 53) (hb : 1 ≤ b ∧ b < 2 ^ 53)
    (hc : 1 ≤ c ∧ c < 2 ^ 53) :
    Binary.InRange (a * b : ℚ) ∧ Binary.InRange (roundBits 53 (a * b) / c) := by
  have low : (2 : ℚ) ^ (0 : ℤ) ≤ a * b := by
    rw [zpow_zero]
    exact_mod_cast one_le_mul_of_one_le_of_one_le ha.1 hb.1
  have high : (a * b : ℚ) < 2 ^ (106 : ℤ) := by
    have := mul_lt_mul'' ha.2 hb.2 (by omega) (by omega)
    exact_mod_cast this.trans_eq (by norm_num)
  have positive : (0 : ℚ) < a * b := lt_of_lt_of_le (two_zpow_pos 0) low
  have one_le : (1 : ℚ) ≤ c := by exact_mod_cast hc.1
  have rounded := @two_zpow_le_roundBits 53 _ 0 (by norm_num) positive low
  have rounded' := @roundBits_le_two_zpow 53 _ 106 positive high
  rw [zpow_zero] at rounded
  constructor
  · exact Binary.inRange_of_le (by norm_num) (by norm_num) low high.le
  · refine @Binary.inRange_of_le _ (-53) 106 (by norm_num) (by norm_num) ?_ ?_
    · have below : (c : ℚ) ≤ 2 ^ (53 : ℤ) := by exact_mod_cast hc.2.le
      rw [zpow_neg, ← one_div]
      exact div_le_div₀ (by linarith) rounded (by linarith) below
    · exact (div_le_self (by linarith) one_le).trans rounded'

/-! ### Numbers of 64 bits -/

/-- A batch that is a number of 64 bits together with all smaller ones. -/
def IsBatch (n : Int64) : Prop := 1 ≤ n.toInt ∧ n.toInt < 2 ^ 53

instance (n : Int64) : Decidable (IsBatch n) := inferInstanceAs (Decidable (_ ∧ _))

theorem IsBatch.represents {n : Int64} (h : IsBatch n) :
    (Binary.ofInt n.toInt : Binary64).Represents n.toInt :=
  Binary.represents_ofInt h.1 h.2.le

section

variable {observed inBatch outBatch : Int64}

/-- The scaled batch is computed with both roundings, and clamped. -/
theorem exists_relaxedBatch_eq_roundedBatch (hobs : IsBatch observed) (hin : IsBatch inBatch)
    (hout : IsBatch outBatch) :
    ∃ r, relaxedBatch observed inBatch outBatch = .ok r ∧
      r.toInt = min (roundedBatch observed.toInt inBatch.toInt outBatch.toInt)
        Int64.maxValue.toInt := by
  obtain ⟨product, quotient⟩ := inRange_scaled hobs hout hin
  have ratio := (hobs.represents.mul hout.represents product).div hin.represents quotient
  have computed : relaxedBatch observed inBatch outBatch =
      .ok (.ofInt (min (roundedBatch observed.toInt inBatch.toInt outBatch.toInt)
        Int64.maxValue.toInt)) := by
    have positive : ¬inBatch ≤ 0 := by
      rw [Int64.le_iff_toInt_le, Int64.toInt_zero, not_le]
      exact hin.1
    rw [relaxedBatch, if_neg positive]
    simp only [ratio.ceil.toInt64, Int.floor_intCast, roundedBatch]
  have nonneg : 0 ≤ roundedBatch observed.toInt inBatch.toInt outBatch.toInt :=
    Int.ceil_nonneg ratio.pos.le
  have least : Int64.minValue.toInt ≤ 0 := by decide
  have greatest : 0 ≤ Int64.maxValue.toInt := by decide
  refine ⟨_, computed, Int64.toInt_ofInt_of_le ?_ ?_⟩
  · exact least.trans (le_min nonneg greatest)
  · exact Int.lt_add_one_iff.2 (min_le_right _ _)

/-- The scaled batch is computed from the rounded product and the rounded quotient. If the product
is at most `2 ^ 53` nothing is lost, so that there is room for every sample and the batch that the
ratio was taken from is scaled to the other one. -/
theorem exists_relaxedBatch (hobs : IsBatch observed) (hin : IsBatch inBatch)
    (hout : IsBatch outBatch) :
    ∃ r, relaxedBatch observed inBatch outBatch = .ok r ∧
      r.toInt = min (roundedBatch observed.toInt inBatch.toInt outBatch.toInt)
        Int64.maxValue.toInt ∧
      (observed.toInt * outBatch.toInt ≤ 2 ^ 53 →
        r.toInt = ceilBatch observed.toInt inBatch.toInt outBatch.toInt ∧
          observed.toInt * outBatch.toInt ≤ r.toInt * inBatch.toInt ∧
          (observed = inBatch → r = outBatch)) := by
  obtain ⟨r, computed, value⟩ := exists_relaxedBatch_eq_roundedBatch hobs hin hout
  refine ⟨r, computed, value, fun h => ?_⟩
  have exactly : r.toInt = ceilBatch observed.toInt inBatch.toInt outBatch.toInt := by
    have positive : 0 < observed.toInt * outBatch.toInt := Int.mul_pos hobs.1 hout.1
    have small := ceilBatch_le hin.1 positive.le
    have greatest : 2 ^ 53 ≤ Int64.maxValue.toInt := by decide
    rw [value, roundedBatch_eq_ceilBatch hobs.1 hin.1 hout.1 h, min_eq_left]
    omega
  refine ⟨exactly, exactly ▸ mul_le_ceilBatch_mul hin.1, ?_⟩
  rintro rfl
  rw [ceilBatch_self hin.1] at exactly
  exact Int64.toInt_inj.1 exactly

end

theorem relaxedBatch_lostBit : relaxedBatch 3 1 3002399751580331 = .ok 9007199254740992 := by
  decide +kernel

/-- The product of two batches may lose its last bit. -/
theorem not_forall_relaxedBatch_eq_ceilBatch :
    ¬∀ observed inBatch outBatch : Int64,
      IsBatch observed → IsBatch inBatch → IsBatch outBatch →
      ceilBatch observed.toInt inBatch.toInt outBatch.toInt ≤ Int64.maxValue.toInt →
      ∃ r, relaxedBatch observed inBatch outBatch = .ok r ∧
        r.toInt = ceilBatch observed.toInt inBatch.toInt outBatch.toInt := by
  have exactly : ceilBatch (3 : Int64).toInt (1 : Int64).toInt (3002399751580331 : Int64).toInt =
      9007199254740993 := by
    decide +kernel
  intro always
  obtain ⟨r, computed, value⟩ := always 3 1 3002399751580331 (by decide) (by decide) (by decide)
    (by rw [exactly]; decide)
  rw [relaxedBatch_lostBit] at computed
  obtain rfl := Except.ok.inj computed
  rw [exactly] at value
  revert value
  decide

theorem exists_relaxedBatch_seven : IsBatch 7 ∧ IsBatch 2 ∧ IsBatch 3 ∧
    ∃ r, relaxedBatch 7 2 3 = .ok r ∧
      r.toInt = min (roundedBatch (7 : Int64).toInt (2 : Int64).toInt (3 : Int64).toInt)
        Int64.maxValue.toInt ∧
      ((7 : Int64).toInt * (3 : Int64).toInt ≤ 2 ^ 53 →
        r.toInt = ceilBatch (7 : Int64).toInt (2 : Int64).toInt (3 : Int64).toInt ∧
          (7 : Int64).toInt * (3 : Int64).toInt ≤ r.toInt * (2 : Int64).toInt ∧
          ((7 : Int64) = 2 → r = 3)) :=
  ⟨by decide, by decide, by decide, exists_relaxedBatch (by decide) (by decide) (by decide)⟩

end TensorGraph

import Mathlib.Algebra.Order.Field.Basic
import Mathlib.Data.Int.Log
import Mathlib.Data.Rat.Floor
import Mathlib.Tactic.FieldSimp
import Mathlib.Tactic.Linarith
import Mathlib.Tactic.Ring
import TensorGraph.Proofs.Ieee.Zeros

/-!
# Numbers as rationals

`roundBits` rounds a positive rational to the nearest one with a given number of significant binary
places, a tie going to the even significand. Away from the smallest and the largest numbers of 64
bits, the operations on them are those on the rationals that they stand for, followed by a rounding
to 53 places: `Binary.Represents.mul`, `Binary.Represents.div`. The least integral number above one
is exact (`Binary.Represents.ceil`).
-/

namespace TensorGraph

/-! ### Rounding of rationals -/

/-- The integer nearest to a rational, a tie going to the even one. -/
def roundEven (q : ℚ) : ℤ :=
  if Int.fract q < 1 / 2 ∨ Int.fract q = 1 / 2 ∧ ⌊q⌋ % 2 = 0 then ⌊q⌋ else ⌊q⌋ + 1

/-- The power of two of the last of the significant binary places of a positive rational. -/
def lastBit (bits : ℕ) (q : ℚ) : ℤ := Int.log 2 q - (bits - 1)

/-- The rational nearest to a positive one that has the given number of significant binary places,
a tie going to the even significand. -/
def roundBits (bits : ℕ) (q : ℚ) : ℚ :=
  roundEven (q / 2 ^ lastBit bits q) * 2 ^ lastBit bits q

section

variable {bits : ℕ} {q : ℚ} {k : ℤ}

theorem roundEven_intCast (k : ℤ) : roundEven k = k := by
  simp [roundEven]

theorem floor_le_roundEven (q : ℚ) : ⌊q⌋ ≤ roundEven q := by
  unfold roundEven
  split <;> omega

theorem roundEven_le_ceil (q : ℚ) : roundEven q ≤ ⌈q⌉ := by
  unfold roundEven
  split
  · exact Int.floor_le_ceil q
  · next h =>
    refine ((Int.ceil_eq_floor_add_one_iff_notMem q).2 ?_).ge
    rintro ⟨n, rfl⟩
    simp at h

/-- A rational that is more than half above an integer is rounded to a greater one. -/
theorem lt_roundEven (h : k + 1 / 2 < q) : k < roundEven q := by
  have below : k ≤ ⌊q⌋ := Int.le_floor.2 (by linarith)
  rcases below.lt_or_eq with less | rfl
  · exact less.trans_le (floor_le_roundEven q)
  · have fract : 1 / 2 < Int.fract q := by
      rw [Int.fract]
      linarith
    rw [roundEven, if_neg]
    · omega
    · rintro (less | ⟨equal, _⟩) <;> linarith

theorem two_zpow_pos (e : ℤ) : (0 : ℚ) < 2 ^ e := zpow_pos two_pos e

theorem two_zpow_le_iff (hq : 0 < q) : (2 : ℚ) ^ k ≤ q ↔ k ≤ Int.log 2 q := by
  have h := Int.zpow_le_iff_le_log (b := 2) (x := k) (r := q) one_lt_two hq
  rwa [Nat.cast_ofNat] at h

theorem lt_two_zpow_iff (hq : 0 < q) : q < (2 : ℚ) ^ k ↔ Int.log 2 q < k := by
  have h := Int.lt_zpow_iff_log_lt (b := 2) (x := k) (r := q) one_lt_two hq
  rwa [Nat.cast_ofNat] at h

/-- In units of its last place a rational has the given number of binary places. -/
theorem le_div_lastBit (hq : 0 < q) : 2 ^ ((bits : ℤ) - 1) ≤ q / 2 ^ lastBit bits q := by
  rw [le_div_iff₀ (two_zpow_pos _), ← zpow_add₀ two_ne_zero, two_zpow_le_iff hq, lastBit]
  omega

theorem div_lastBit_lt (hq : 0 < q) : q / 2 ^ lastBit bits q < 2 ^ (bits : ℤ) := by
  rw [div_lt_iff₀ (two_zpow_pos _), ← zpow_add₀ two_ne_zero, lt_two_zpow_iff hq, lastBit]
  omega

/-- A rounded significand has the given number of binary places, or it is the first that has
more. -/
theorem le_roundEven_div (hbits : 0 < bits) (hq : 0 < q) :
    2 ^ (bits - 1) ≤ roundEven (q / 2 ^ lastBit bits q) := by
  refine (Int.le_floor.2 ?_).trans (floor_le_roundEven _)
  have h := @le_div_lastBit bits q hq
  rw [← Nat.cast_pred hbits, zpow_natCast] at h
  exact_mod_cast h

theorem roundEven_div_le (hq : 0 < q) : roundEven (q / 2 ^ lastBit bits q) ≤ 2 ^ bits := by
  refine (roundEven_le_ceil _).trans (Int.ceil_le.2 ?_)
  have h := @div_lastBit_lt bits q hq
  rw [zpow_natCast] at h
  exact_mod_cast h.le

/-- Rounding does not cross a power of two. -/
theorem two_zpow_le_roundBits (hbits : 0 < bits) (hq : 0 < q) (h : 2 ^ k ≤ q) :
    2 ^ k ≤ roundBits bits q := by
  have significand : (2 ^ (bits - 1) : ℚ) ≤ roundEven (q / 2 ^ lastBit bits q) := by
    exact_mod_cast le_roundEven_div hbits hq
  calc (2 : ℚ) ^ k
      ≤ 2 ^ (((bits - 1 : ℕ) : ℤ) + lastBit bits q) := by
        apply zpow_le_zpow_right₀ one_le_two
        have := (two_zpow_le_iff hq).1 h
        rw [lastBit]
        omega
    _ = 2 ^ (bits - 1) * 2 ^ lastBit bits q := by rw [zpow_add₀ two_ne_zero, zpow_natCast]
    _ ≤ roundBits bits q := mul_le_mul_of_nonneg_right significand (two_zpow_pos _).le

theorem roundBits_le_two_zpow (hq : 0 < q) (h : q < 2 ^ k) : roundBits bits q ≤ 2 ^ k := by
  have significand : (roundEven (q / 2 ^ lastBit bits q) : ℚ) ≤ 2 ^ bits := by
    exact_mod_cast roundEven_div_le hq
  calc roundBits bits q
      ≤ 2 ^ bits * 2 ^ lastBit bits q :=
        mul_le_mul_of_nonneg_right significand (two_zpow_pos _).le
    _ = 2 ^ ((bits : ℤ) + lastBit bits q) := by rw [zpow_add₀ two_ne_zero, zpow_natCast]
    _ ≤ 2 ^ k := by
        apply zpow_le_zpow_right₀ one_le_two
        have := (lt_two_zpow_iff hq).1 h
        rw [lastBit]
        omega

theorem lastBit_nonpos (hq : 0 < q) (h : q < 2 ^ (bits : ℤ)) : lastBit bits q ≤ 0 := by
  rw [lt_two_zpow_iff hq] at h
  rw [lastBit]
  omega

/-- What has no more than the given number of binary places is not changed. -/
theorem roundBits_eq_self (h : q / 2 ^ lastBit bits q = k) : roundBits bits q = q := by
  rw [roundBits, h, roundEven_intCast, ← h, div_mul_cancel₀ _ (two_zpow_pos _).ne']

/-- Integers with no more than the given number of binary places are not changed, nor is the
first one that has more. -/
theorem roundBits_intCast (hbits : 0 < bits) (hk : 0 < k) (h : k ≤ 2 ^ bits) :
    roundBits bits k = k := by
  have positive : (0 : ℚ) < k := by exact_mod_cast hk
  rcases h.lt_or_eq with less | rfl
  · have below : lastBit bits k ≤ 0 := by
      apply lastBit_nonpos positive
      rw [zpow_natCast]
      exact_mod_cast less
    obtain ⟨e, he⟩ := Int.eq_ofNat_of_zero_le (neg_nonneg.2 below)
    apply roundBits_eq_self (k := k * 2 ^ e)
    rw [← neg_neg (lastBit bits k), he, zpow_neg, div_inv_eq_mul, zpow_natCast]
    push_cast
    rfl
  · obtain ⟨n, rfl⟩ := Nat.exists_eq_add_of_lt hbits
    have last : lastBit (0 + n + 1) ((2 ^ (0 + n + 1) : ℤ) : ℚ) = 1 := by
      have log := Int.log_zpow (R := ℚ) (b := 2) one_lt_two ((0 + n + 1 : ℕ) : ℤ)
      rw [zpow_natCast, Nat.cast_ofNat] at log
      rw [lastBit, Int.cast_pow, Int.cast_ofNat, log]
      push_cast
      ring
    apply roundBits_eq_self (k := 2 ^ n)
    rw [last, zero_add, pow_succ]
    push_cast
    ring

end

/-! ### The rounding of quotients -/

section

variable {n d : ℕ}

theorem shifted_div (n d : ℕ) (e : ℤ) :
    ((n <<< (-e).toNat : ℕ) : ℚ) / (d <<< e.toNat : ℕ) = n / d / 2 ^ e := by
  obtain ⟨k, rfl | rfl⟩ := e.eq_nat_or_neg
  · simp [Nat.shiftLeft_eq, div_div]
  · simp [Nat.shiftLeft_eq, div_mul_eq_mul_div]

theorem shiftLeft_pos (hd : 0 < d) (k : ℕ) : 0 < d <<< k := by
  rw [Nat.shiftLeft_eq]
  exact Nat.mul_pos hd (Nat.two_pow_pos k)

theorem roundHalfEven_eq (hd : 0 < d) (n : ℕ) :
    (roundHalfEven n d : ℤ) = roundEven (n / d) := by
  have floor : ⌊(n / d : ℚ)⌋ = ((n / d : ℕ) : ℤ) := by
    rw [Rat.floor_natCast_div_natCast]
    rfl
  have fract : Int.fract (n / d : ℚ) = (n % d : ℕ) / d :=
    Int.fract_div_natCast_eq_div_natCast_mod
  have positive : (0 : ℚ) < d := by exact_mod_cast hd
  have below : Int.fract (n / d : ℚ) < 1 / 2 ↔ 2 * (n % d) < d := by
    rw [fract, div_lt_div_iff₀ positive two_pos]
    norm_cast
    omega
  have tie : Int.fract (n / d : ℚ) = 1 / 2 ↔ 2 * (n % d) = d := by
    rw [fract, div_eq_div_iff positive.ne' two_ne_zero]
    norm_cast
    omega
  have even : ((n / d : ℕ) : ℤ) % 2 = 0 ↔ n / d % 2 = 0 := by omega
  simp only [roundHalfEven, roundEven, below, tie, floor, even]
  split <;> simp

theorem ceil_natCast_div (hd : 0 < d) :
    ⌈(n / d : ℚ)⌉ = ((n / d + if n % d ≠ 0 then 1 else 0 : ℕ) : ℤ) := by
  have positive : (0 : ℚ) < d := by exact_mod_cast hd
  have whole : (d * (n / d : ℕ) + (n % d : ℕ) : ℚ) = n := by
    exact_mod_cast Nat.div_add_mod n d
  have below : ((n % d : ℕ) : ℚ) < d := by exact_mod_cast Nat.mod_lt n hd
  generalize n / d = c, n % d = r at *
  rw [Int.ceil_eq_iff, lt_div_iff₀ positive, div_le_iff₀ positive, ← whole]
  split
  · next h =>
    have above : (0 : ℚ) < r := by exact_mod_cast Nat.pos_of_ne_zero h
    push_cast
    constructor <;> linarith
  · next h =>
    rw [not_not.1 h]
    push_cast
    constructor <;> linarith

theorem two_zpow_log2_le (hn : 0 < n) : (2 : ℚ) ^ (n.log2 : ℤ) ≤ n := by
  rw [zpow_natCast]
  exact_mod_cast Nat.log2_self_le hn.ne'

theorem lt_two_zpow_log2 (n : ℕ) : (n : ℚ) < 2 ^ ((n.log2 : ℤ) + 1) := by
  have h : n < 2 ^ (n.log2 + 1) := Nat.lt_log2_self
  exact_mod_cast h

/-- The leading place of a quotient. -/
theorem log2Quotient_eq_log (hn : 0 < n) (hd : 0 < d) :
    log2Quotient n d = Int.log 2 (n / d : ℚ) := by
  have hn' : (0 : ℚ) < n := by exact_mod_cast hn
  have hd' : (0 : ℚ) < d := by exact_mod_cast hd
  have positive : (0 : ℚ) < n / d := div_pos hn' hd'
  have fits (k : ℤ) : d <<< k.toNat ≤ n <<< (-k).toNat ↔ k ≤ Int.log 2 (n / d : ℚ) := by
    have shifted : (0 : ℚ) < (d <<< k.toNat : ℕ) := by exact_mod_cast shiftLeft_pos hd k.toNat
    rw [← two_zpow_le_iff positive, ← one_le_div₀ (two_zpow_pos k), ← shifted_div,
      one_le_div₀ shifted, Nat.cast_le]
  have lower : (n.log2 : ℤ) - d.log2 - 1 ≤ Int.log 2 (n / d : ℚ) := by
    rw [← two_zpow_le_iff positive, le_div_iff₀ hd']
    calc (2 : ℚ) ^ ((n.log2 : ℤ) - d.log2 - 1) * d
        ≤ 2 ^ ((n.log2 : ℤ) - d.log2 - 1) * 2 ^ ((d.log2 : ℤ) + 1) :=
          mul_le_mul_of_nonneg_left (lt_two_zpow_log2 d).le (two_zpow_pos _).le
      _ = 2 ^ (n.log2 : ℤ) := by
          rw [← zpow_add₀ two_ne_zero]
          congr 1
          ring
      _ ≤ n := two_zpow_log2_le hn
  have upper : Int.log 2 (n / d : ℚ) < (n.log2 : ℤ) - d.log2 + 1 := by
    rw [← lt_two_zpow_iff positive, div_lt_iff₀ hd']
    calc (n : ℚ)
        < 2 ^ ((n.log2 : ℤ) + 1) := lt_two_zpow_log2 n
      _ = 2 ^ ((n.log2 : ℤ) - d.log2 + 1) * 2 ^ (d.log2 : ℤ) := by
          rw [← zpow_add₀ two_ne_zero]
          congr 1
          ring
      _ ≤ 2 ^ ((n.log2 : ℤ) - d.log2 + 1) * d :=
          mul_le_mul_of_nonneg_left (two_zpow_log2_le hd) (two_zpow_pos _).le
  simp only [log2Quotient, fits]
  split <;> omega

end

/-! ### Numbers of 64 bits -/

namespace Binary

variable {x y : Binary64} {q r : ℚ} {n d m : ℕ} {e : ℤ}

/-- The number is a positive rational. -/
def Represents (x : Binary64) (q : ℚ) : Prop :=
  ∃ m e, 0 < m ∧ x.datum = .finite false m e ∧ (m : ℚ) * 2 ^ e = q

/-- The rational is far from the smallest and from the largest numbers. -/
def InRange (q : ℚ) : Prop := 2 ^ (-1022 : ℤ) ≤ q ∧ q < 2 ^ (1023 : ℤ)

theorem negative_ofMagnitude (h : m < 2 ^ 63) :
    (ofMagnitude false m : Binary64).negative = false := by
  have width : BinaryFormat.double.width = 64 := rfl
  have small : m % 2 ^ 64 = m := Nat.mod_eq_of_lt (by omega)
  rw [negative, ofMagnitude, BitVec.msb_eq_decide, decide_eq_false_iff_not, BitVec.toNat_ofNat]
  simp only [Bool.false_eq_true, if_false, Nat.zero_add, width, small]
  omega

/-- The pattern of a normal number. -/
theorem datum_ofMagnitude {field : ℕ} (hm : 2 ^ 52 ≤ m) (hm' : m < 2 ^ 53)
    (hfield : field < 2046) :
    (ofMagnitude false ((field <<< 52) + m) : Binary64).datum =
      .finite false m (BinaryFormat.double.leastExponent + field) := by
  have shifted : field <<< 52 = field * 2 ^ 52 := Nat.shiftLeft_eq field 52
  have infinity : BinaryFormat.double.infinity = 2047 * 2 ^ 52 := rfl
  have fits : (field <<< 52) + m < 1 <<< BinaryFormat.double.magnitudeBits := by
    refine Nat.lt_trans ?_ infinity_double_lt
    omega
  have magnitude := magnitude_ofMagnitude (f := .double) false fits
  have sign : (ofMagnitude false ((field <<< 52) + m) : Binary64).negative = false :=
    negative_ofMagnitude (by omega)
  have bits : BinaryFormat.double.fractionBits = 52 := rfl
  have exponent : (ofMagnitude false ((field <<< 52) + m) : Binary64).exponentField = field + 1 := by
    rw [exponentField, magnitude, bits, Nat.shiftRight_eq_div_pow]
    omega
  have fraction : (ofMagnitude false ((field <<< 52) + m) : Binary64).fraction = m - 2 ^ 52 := by
    rw [Binary.fraction, magnitude, bits, Nat.one_shiftLeft]
    omega
  have significand : 2 ^ 52 + (m - 2 ^ 52) = m := Nat.add_sub_cancel' hm
  have place : ((field + 1 : ℕ) : ℤ) - 1 = field := by omega
  rw [datum, magnitude, infinity, exponent, fraction, sign, if_neg (by omega), if_neg (by omega),
    if_neg (by omega), bits, Nat.one_shiftLeft, significand, place]

/-- A carry out of the significand goes to the exponent. -/
theorem represents_ofMagnitude {field : ℕ} (hm : 2 ^ 52 ≤ m) (hm' : m ≤ 2 ^ 53)
    (hfield : field < 2045) :
    (ofMagnitude false ((field <<< 52) + m) : Binary64).Represents
      (m * 2 ^ (BinaryFormat.double.leastExponent + field)) := by
  rcases hm'.lt_or_eq with less | rfl
  · exact ⟨m, _, by omega, datum_ofMagnitude hm less (by omega), rfl⟩
  · have carried : (field <<< 52) + 2 ^ 53 = ((field + 1) <<< 52) + 2 ^ 52 := by
      rw [Nat.shiftLeft_eq, Nat.shiftLeft_eq]
      ring
    have small : 2 ^ 52 < 2 ^ 53 := by norm_num
    have datum := @datum_ofMagnitude _ (field + 1) le_rfl small (by omega)
    rw [carried]
    refine ⟨_, _, Nat.two_pow_pos 52, datum, ?_⟩
    push_cast
    rw [← add_assoc, zpow_add_one₀ two_ne_zero]
    ring

theorem represents_ofQuotient (hn : 0 < n) (hd : 0 < d) (range : InRange (n / d : ℚ)) :
    (ofQuotient false n d : Binary64).Represents (roundBits 53 (n / d)) := by
  have positive : (0 : ℚ) < n / d := div_pos (by exact_mod_cast hn) (by exact_mod_cast hd)
  have low := (two_zpow_le_iff positive).1 range.1
  have high := (lt_two_zpow_iff positive).1 range.2
  have least : BinaryFormat.double.leastExponent = -1074 := rfl
  have bits : BinaryFormat.double.fractionBits = 52 := rfl
  have place : BinaryFormat.double.lastPlace n d = lastBit 53 (n / d) := by
    rw [BinaryFormat.lastPlace, log2Quotient_eq_log hn hd, lastBit, least, bits, max_eq_left]
    · push_cast
      ring
    · push_cast
      omega
  have bounds : -1074 ≤ lastBit 53 (n / d : ℚ) ∧ lastBit 53 (n / d : ℚ) < 971 := by
    rw [lastBit]
    push_cast
    omega
  obtain ⟨e, he⟩ : ∃ e, lastBit 53 (n / d : ℚ) = e := ⟨_, rfl⟩
  obtain ⟨r, hr⟩ : ∃ r, roundHalfEven (n <<< (-e).toNat) (d <<< e.toNat) = r := ⟨_, rfl⟩
  have rounded : (r : ℤ) = roundEven (n / d / 2 ^ e) := by
    rw [← hr, roundHalfEven_eq (shiftLeft_pos hd _), shifted_div]
  have above : 2 ^ 52 ≤ r := by
    have h := @le_roundEven_div 53 _ (by norm_num) positive
    rw [he, ← rounded] at h
    exact_mod_cast h
  have below : r ≤ 2 ^ 53 := by
    have h := @roundEven_div_le 53 _ positive
    rw [he, ← rounded] at h
    exact_mod_cast h
  have nearest : BinaryFormat.double.nearest n d = ((e + 1074).toNat <<< 52) + r := by
    have infinity : BinaryFormat.double.infinity = 2047 * 2 ^ 52 := rfl
    have field : (e - BinaryFormat.double.leastExponent).toNat = (e + 1074).toNat := by
      rw [least, sub_neg_eq_add]
    rw [BinaryFormat.nearest, if_neg hn.ne']
    simp only [place, he, hr, field, bits]
    rw [min_eq_left]
    rw [infinity, Nat.shiftLeft_eq]
    omega
  have represents := @represents_ofMagnitude r (e + 1074).toNat above below (by omega)
  have exponent : BinaryFormat.double.leastExponent + ((e + 1074).toNat : ℤ) = e := by omega
  have value : roundBits 53 (n / d) = r * 2 ^ e := by
    rw [roundBits, he, ← rounded, Int.cast_natCast]
  rw [ofQuotient, nearest, value]
  rwa [exponent] at represents

theorem shifted_mul (m : ℕ) (e : ℤ) :
    ((m <<< e.toNat : ℕ) : ℚ) / (1 <<< (-e).toNat : ℕ) = m * 2 ^ e := by
  have h := shifted_div m 1 (-e)
  rw [neg_neg] at h
  rw [h, Nat.cast_one, div_one, zpow_neg, div_inv_eq_mul]

theorem represents_ofScaled (hm : 0 < m) (range : InRange (m * 2 ^ e)) :
    (ofScaled false m e : Binary64).Represents (roundBits 53 (m * 2 ^ e)) := by
  rw [← shifted_mul] at range ⊢
  exact represents_ofQuotient (shiftLeft_pos hm _) (shiftLeft_pos one_pos _) range

/-- What lies between two numbers that are not too small and not too large. -/
theorem inRange_of_le {low high : ℤ} (hlow : -1022 ≤ low) (hhigh : high ≤ 1022) (h : 2 ^ low ≤ q)
    (h' : q ≤ 2 ^ high) : InRange q :=
  ⟨(zpow_le_zpow_right₀ one_le_two hlow).trans h,
    h'.trans_lt (zpow_lt_zpow_right₀ one_lt_two (by omega))⟩

theorem inRange_intCast {k : ℤ} (hk : 0 < k) (h : k ≤ 2 ^ 53) : InRange k := by
  refine @inRange_of_le _ 0 53 (by norm_num) (by norm_num) ?_ ?_
  · rw [zpow_zero]
    exact_mod_cast hk
  · exact_mod_cast h

theorem represents_ofInt {k : ℤ} (hk : 0 < k) (h : k ≤ 2 ^ 53) :
    (ofInt k : Binary64).Represents k := by
  obtain ⟨m, rfl⟩ := Int.eq_ofNat_of_zero_le hk.le
  have scaled : ((m : ℚ) * 2 ^ (0 : ℤ)) = ((m : ℤ) : ℚ) := by simp
  have represents := @represents_ofScaled m 0 (by omega) (scaled ▸ inRange_intCast hk h)
  rw [scaled, roundBits_intCast (by norm_num) hk h] at represents
  rw [ofInt, decide_eq_false (by omega)]
  exact represents

theorem Represents.pos (h : x.Represents q) : 0 < q := by
  obtain ⟨m, e, hm, _, rfl⟩ := h
  exact mul_pos (by exact_mod_cast hm) (two_zpow_pos e)

theorem Represents.mul (hx : x.Represents q) (hy : y.Represents r) (range : InRange (q * r)) :
    (x * y).Represents (roundBits 53 (q * r)) := by
  obtain ⟨m, e, hm, datum, rfl⟩ := hx
  obtain ⟨n, k, hn, datum', rfl⟩ := hy
  have value : (m * 2 ^ e * (n * 2 ^ k) : ℚ) = (m * n : ℕ) * 2 ^ (e + k) := by
    rw [zpow_add₀ two_ne_zero]
    push_cast
    ring
  have product : x * y = ofScaled false (m * n) (e + k) := by
    change Binary.mul x y = _
    simp only [Binary.mul, datum, datum', bne_self_eq_false]
  rw [value] at range ⊢
  rw [product]
  exact represents_ofScaled (Nat.mul_pos hm hn) range

theorem Represents.div (hx : x.Represents q) (hy : y.Represents r) (range : InRange (q / r)) :
    (x / y).Represents (roundBits 53 (q / r)) := by
  obtain ⟨m, e, hm, datum, rfl⟩ := hx
  obtain ⟨n, k, hn, datum', rfl⟩ := hy
  have value : (m * 2 ^ e / (n * 2 ^ k) : ℚ) =
      ((m <<< (e - k).toNat : ℕ) : ℚ) / (n <<< (k - e).toNat : ℕ) := by
    rw [← neg_sub k e, shifted_div, zpow_sub₀ two_ne_zero]
    field_simp
  have quotient : x / y = ofQuotient false (m <<< (e - k).toNat) (n <<< (k - e).toNat) := by
    change Binary.div x y = _
    simp only [Binary.div, datum, datum', bne_self_eq_false, if_neg hn.ne']
  rw [value] at range ⊢
  rw [quotient]
  exact represents_ofQuotient (shiftLeft_pos hm _) (shiftLeft_pos hn _) range

theorem significand_lt {s : Bool} (h : x.datum = .finite s m e) : m < 2 ^ 53 := by
  have small : x.fraction < 2 ^ 52 := by
    rw [fraction, show BinaryFormat.double.fractionBits = 52 from rfl, Nat.one_shiftLeft]
    exact Nat.mod_lt _ (Nat.two_pow_pos 52)
  rw [datum] at h
  split at h
  · cases h
  · split at h
    · cases h
    · split at h
      · cases h
        omega
      · cases h
        rw [show BinaryFormat.double.fractionBits = 52 from rfl, Nat.one_shiftLeft]
        omega

/-- The least integral number that is not below a number is exact. -/
theorem Represents.ceil (h : x.Represents q) : x.ceil.Represents ⌈q⌉ := by
  obtain ⟨m, e, hm, datum, rfl⟩ := h
  by_cases integral : 0 ≤ e
  · have same : x.ceil = x := by
      simp only [Binary.ceil, toIntegral, datum, if_pos integral]
    obtain ⟨k, rfl⟩ := Int.eq_ofNat_of_zero_le integral
    have whole : (m * 2 ^ (k : ℤ) : ℚ) = ((m * 2 ^ k : ℤ) : ℚ) := by
      rw [zpow_natCast]
      push_cast
      rfl
    rw [same]
    refine ⟨m, k, hm, datum, ?_⟩
    rw [whole, Int.ceil_intCast]
  · obtain ⟨k, hk⟩ := Int.eq_ofNat_of_zero_le (by omega : 0 ≤ -e)
    obtain rfl : e = -k := by omega
    have value : (m * 2 ^ (-(k : ℤ)) : ℚ) = m / (2 ^ k : ℕ) := by
      rw [zpow_neg, zpow_natCast, ← div_eq_mul_inv, Nat.cast_pow, Nat.cast_ofNat]
    have up : x.ceil = ofInt ⌈(m / (2 ^ k : ℕ) : ℚ)⌉ := by
      rw [ceil_natCast_div (Nat.two_pow_pos k)]
      obtain ⟨c, hc⟩ : ∃ c, m / 2 ^ k + (if m % 2 ^ k ≠ 0 then 1 else 0) = c := ⟨_, rfl⟩
      have place : (-(-(k : ℤ))).toNat = k := by omega
      have sign : decide ((c : ℤ) < 0) = false := decide_eq_false (by omega)
      simp only [Binary.ceil, toIntegral, datum, if_neg integral, place, Nat.one_shiftLeft,
        Bool.not_false, Bool.and_true, decide_eq_true_eq, hc, ofInt, sign, Int.natAbs_natCast]
    have positive : (0 : ℚ) < m / (2 ^ k : ℕ) :=
      div_pos (by exact_mod_cast hm) (by exact_mod_cast Nat.two_pow_pos k)
    have bounded : ⌈(m / (2 ^ k : ℕ) : ℚ)⌉ ≤ m := by
      rw [Int.ceil_le, Int.cast_natCast]
      exact div_le_self m.cast_nonneg (by exact_mod_cast Nat.two_pow_pos k)
    have small := significand_lt datum
    rw [up, value]
    exact represents_ofInt (Int.ceil_pos.2 positive) (by omega)

theorem Represents.toInt64 (h : x.Represents q) :
    x.toInt64 = .ofInt (min ⌊q⌋ Int64.maxValue.toInt) := by
  obtain ⟨m, e, hm, datum, rfl⟩ := h
  have floor : ⌊(m * 2 ^ e : ℚ)⌋ = (((m <<< e.toNat) >>> (-e).toNat : ℕ) : ℤ) := by
    rw [← shifted_mul, Rat.floor_natCast_div_natCast, Nat.shiftRight_eq_div_pow, Nat.one_shiftLeft]
    rfl
  have least : Int64.minValue.toInt < 0 := by decide
  have greatest : 0 < Int64.maxValue.toInt := by decide
  rw [Binary.toInt64, truncate, datum, floor]
  simp only [signed, Bool.false_eq_true, if_false]
  rw [min_comm, max_eq_right (le_min (least.le.trans (Int.natCast_nonneg _))
    (least.trans greatest).le)]

end Binary

end TensorGraph

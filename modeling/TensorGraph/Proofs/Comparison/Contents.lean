import Mathlib.Algebra.Ring.Nat
import Mathlib.Data.List.Nodup
import TensorGraph.Attribute
import TensorGraph.Tensor

/-!
# Equality of what nodes hold

The comparison looks at attributes key by key and at tensors byte by byte. Either way nothing is
missed: maps that agree at every key are equal (`AttributeMap.ext_find?`), and so are tensors of one
type with the same bytes (`TensorData.bytes_injective`).
-/

namespace TensorGraph

/-! ### Attributes -/

namespace AttributeMap

variable {m m' : AttributeMap} {key : String} {value : Attribute}

theorem nodup_entries (m : AttributeMap) : m.entries.Nodup :=
  m.ordered.imp fun h e => Std.ne_of_lt h (congrArg Prod.fst e)

/-- A key has one value. -/
theorem eq_of_mem_entries {a b : Attribute} (ha : (key, a) ∈ m.entries)
    (hb : (key, b) ∈ m.entries) :
    a = b := by
  obtain ⟨entries, ordered⟩ := m
  induction entries with
  | nil => cases ha
  | cons first rest ih =>
    have hfirst := List.pairwise_cons.1 ordered
    rcases List.mem_cons.1 ha with rfl | ha <;> rcases List.mem_cons.1 hb with e | hb
    · exact (Prod.mk.inj e).2.symm
    · exact absurd (hfirst.1 _ hb) Std.lt_irrefl
    · obtain rfl := e
      exact absurd (hfirst.1 _ ‹(key, a) ∈ rest›) Std.lt_irrefl
    · exact ih hfirst.2 ha hb

theorem find?_eq_some_iff : m.find? key = some value ↔ (key, value) ∈ m.entries := by
  unfold find?
  constructor
  · intro h
    obtain ⟨pair, hpair, rfl⟩ := Option.map_eq_some_iff.1 h
    have same : pair.1 = key := by simpa using List.find?_some hpair
    exact same ▸ List.mem_of_find?_eq_some hpair
  · intro h
    cases hfind : m.entries.find? (·.1 = key) with
    | none => simpa using List.find?_eq_none.1 hfind _ h
    | some pair =>
      have same : pair.1 = key := by simpa using List.find?_some hfind
      have hpair : (key, pair.2) ∈ m.entries := same ▸ List.mem_of_find?_eq_some hfind
      rw [Option.map_some, m.eq_of_mem_entries hpair h]

/-- Maps with the same value at every key are the same. -/
theorem ext_find? (h : ∀ key, m.find? key = m'.find? key) : m = m' := by
  have mem (pair : String × Attribute) : pair ∈ m.entries ↔ pair ∈ m'.entries := by
    rw [← find?_eq_some_iff, ← find?_eq_some_iff, h]
  have perm : m.entries.Perm m'.entries :=
    (List.perm_ext_iff_of_nodup m.nodup_entries m'.nodup_entries).2 mem
  have same : m.entries = m'.entries :=
    perm.eq_of_pairwise (fun _ _ _ _ hab hba => absurd (Std.lt_trans hab hba) Std.lt_irrefl)
      m.ordered m'.ordered
  obtain ⟨entries, ordered⟩ := m
  obtain rfl : entries = m'.entries := same
  rfl

theorem mem_keys : key ∈ m.keys ↔ ∃ value, m.find? key = some value := by
  simp [keys, find?_eq_some_iff]

end AttributeMap

/-! ### Tensors -/

namespace TensorData

theorem littleEndian_injective {count m n : Nat} (hm : m < 256 ^ count) (hn : n < 256 ^ count)
    (h : littleEndian count m = littleEndian count n) : m = n := by
  induction count generalizing m n with
  | zero => omega
  | succ count ih =>
    simp only [littleEndian, List.cons.injEq] at h
    have low : m % 256 = n % 256 := by
      have := congrArg UInt8.toNat h.1
      simpa using this
    have high : m / 256 = n / 256 := by
      refine ih ?_ ?_ h.2 <;> rw [Nat.div_lt_iff_lt_mul (by omega), ← Nat.pow_succ] <;> assumption
    omega

theorem length_littleEndian (count n : Nat) : (littleEndian count n).length = count := by
  induction count generalizing n with
  | zero => rfl
  | succ count ih => simp [littleEndian, ih]

/-- Blocks of one length can be told apart in a row. -/
theorem flatMap_littleEndian_injective {α : Type} (count : Nat) (toNat : α → Nat)
    (positive : 0 < count) (bound : ∀ x, toNat x < 256 ^ count)
    (inj : ∀ x y, toNat x = toNat y → x = y) {xs ys : List α}
    (h : (xs.flatMap fun x => littleEndian count (toNat x)) =
      ys.flatMap fun y => littleEndian count (toNat y)) : xs = ys := by
  induction xs generalizing ys with
  | nil =>
    cases ys with
    | nil => rfl
    | cons y ys =>
      have := congrArg List.length h
      simp [length_littleEndian] at this
      omega
  | cons x xs ih =>
    cases ys with
    | nil =>
      have := congrArg List.length h
      simp [length_littleEndian] at this
      omega
    | cons y ys =>
      rw [List.flatMap_cons, List.flatMap_cons] at h
      obtain ⟨first, rest⟩ := List.append_inj h (by simp only [length_littleEndian])
      rw [inj x y (littleEndian_injective (bound x) (bound y) first), ih rest]

theorem toNat_bits_injective {f : BinaryFormat} (x y : Binary f)
    (h : x.bits.toNat = y.bits.toNat) : x = y := by
  obtain ⟨bits⟩ := x
  exact congrArg Binary.mk (BitVec.eq_of_toNat_eq h)

/-- The bytes of elements of one type determine the elements. -/
theorem bytes_injective {a b : TensorData} (type : a.elementType = b.elementType)
    (h : a.bytes = b.bytes) : a = b := by
  cases a <;> cases b <;> simp only [elementType, reduceCtorEq] at type
  case f64.f64 =>
    exact congrArg f64 (flatMap_littleEndian_injective 8 (fun x : Binary64 => x.bits.toNat)
      (by omega) (fun x => x.bits.isLt) toNat_bits_injective h)
  case f32.f32 =>
    exact congrArg f32 (flatMap_littleEndian_injective 4 (fun x : Binary32 => x.bits.toNat)
      (by omega) (fun x => x.bits.isLt) toNat_bits_injective h)
  case i64.i64 =>
    exact congrArg i64 (flatMap_littleEndian_injective 8 (fun x : Int64 => x.toUInt64.toNat)
      (by omega) (fun x => x.toUInt64.toNat_lt)
      (fun _ _ e => congrArg Int64.ofUInt64 (UInt64.toNat_inj.1 e)) h)
  case i32.i32 =>
    exact congrArg i32 (flatMap_littleEndian_injective 4 (fun x : Int32 => x.toUInt32.toNat)
      (by omega) (fun x => x.toUInt32.toNat_lt)
      (fun _ _ e => congrArg Int32.ofUInt32 (UInt32.toNat_inj.1 e)) h)
  case u8.u8 => exact congrArg u8 h
  case boolean.boolean =>
    refine congrArg boolean (List.map_injective_iff.2 (fun x y e => ?_) h)
    cases x <;> cases y <;> simp_all

end TensorData

end TensorGraph

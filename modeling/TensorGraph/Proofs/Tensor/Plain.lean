import TensorGraph.Inference
import TensorGraph.Proofs.Ieee.Zeros

/-!
# Slots up to the sign of zeros

Inference tells whether an output has changed by comparing its elements as numbers. The plain form
of a slot, without the signs of the zeros in its value, is what it takes for unchanged
(`Slot.map_plain_eq_of_numEqList`). Values of integers are their own plain form.
-/

namespace TensorGraph

namespace Binary

variable {f : BinaryFormat}

theorem map_plain_eq_of_numEqList {xs ys : List (Binary f)} (h : numEqList xs ys) :
    xs.map plain = ys.map plain := by
  induction xs generalizing ys with
  | nil =>
    cases ys with
    | nil => rfl
    | cons y ys => simp [numEqList] at h
  | cons x xs ih =>
    cases ys with
    | nil => simp [numEqList] at h
    | cons y ys =>
      simp only [numEqList, Bool.and_eq_true] at h
      rw [List.map_cons, List.map_cons, plain_eq_of_numEq h.1, ih h.2]

end Binary

namespace TensorData

variable {data data' : TensorData}

/-- The elements without the signs of zeros. -/
def plain : TensorData → TensorData
  | f64 xs => f64 (xs.map Binary.plain)
  | f32 xs => f32 (xs.map Binary.plain)
  | i64 xs => i64 xs
  | i32 xs => i32 xs
  | u8 xs => u8 xs
  | boolean xs => boolean xs

theorem plain_eq_of_numEq (h : data.numEq data') : data.plain = data'.plain := by
  cases data <;> cases data' <;> simp only [numEq, decide_eq_true_eq] at h
  case f64.f64 xs ys => rw [plain, plain, Binary.map_plain_eq_of_numEqList h]
  case f32.f32 xs ys => rw [plain, plain, Binary.map_plain_eq_of_numEqList h]
  all_goals rw [h]

/-- Integers are the same if their plain forms are. -/
theorem eq_of_plain_eq {xs : List Int} (h : data.plain = data'.plain)
    (integers : data'.integers? = some xs) : data = data' := by
  cases data' <;> cases data <;> simp_all [plain, integers?]

theorem exists_f64_of_plain_eq {ys : List Binary64} (h : data.plain = (f64 ys).plain) :
    ∃ xs, data = f64 xs ∧ xs.map Binary.plain = ys.map Binary.plain := by
  cases data <;> simp_all [plain]

end TensorData

namespace Tensor

variable {t t' : Tensor}

/-- The tensor without the signs of zeros. -/
def plain (t : Tensor) : Tensor := ⟨t.data.plain, t.extents⟩

theorem plain_eq_of_numEq (h : t.numEq t') : t.plain = t'.plain := by
  simp only [numEq, Bool.and_eq_true, decide_eq_true_eq] at h
  rw [plain, plain, TensorData.plain_eq_of_numEq h.1, h.2]

theorem eq_of_plain_eq {xs : List Int} (h : t.plain = t'.plain)
    (integers : t'.integers? = some xs) : t = t' := by
  obtain ⟨data, extents⟩ := t
  obtain ⟨data', extents'⟩ := t'
  simp only [plain, mk.injEq] at h
  rw [TensorData.eq_of_plain_eq h.1 integers, h.2]

end Tensor

namespace Slot

variable {slot slot' : Slot} {slots slots' : List Slot}

/-- The slot without the signs of the zeros in its value. -/
def plain (slot : Slot) : Slot := { slot with value := slot.value.map Tensor.plain }

theorem plain_eq_plain_iff : slot.plain = slot'.plain ↔
    slot.toSlotType = slot'.toSlotType ∧
      slot.value.map Tensor.plain = slot'.value.map Tensor.plain := by
  simp [plain]

theorem plain_eq_of_numEq (h : slot.numEq slot') : slot.plain = slot'.plain := by
  simp only [numEq, Bool.and_eq_true, decide_eq_true_eq] at h
  refine plain_eq_plain_iff.2 ⟨h.1, ?_⟩
  have values := h.2
  cases hv : slot.value with
  | none =>
    cases hv' : slot'.value with
    | none => rfl
    | some t' => simp [hv, hv'] at values
  | some t =>
    cases hv' : slot'.value with
    | none => simp [hv, hv'] at values
    | some t' =>
      rw [Option.map_some, Option.map_some, Tensor.plain_eq_of_numEq]
      simpa [hv, hv'] using values

/-- Slots that inference takes for unchanged have the same plain forms. -/
theorem map_plain_eq_of_numEqList (h : numEqList slots slots') :
    slots.map plain = slots'.map plain := by
  induction slots generalizing slots' with
  | nil =>
    cases slots' with
    | nil => rfl
    | cons slot' slots' => simp [numEqList] at h
  | cons slot slots ih =>
    cases slots' with
    | nil => simp [numEqList] at h
    | cons slot' slots' =>
      simp only [numEqList, Bool.and_eq_true] at h
      rw [List.map_cons, List.map_cons, plain_eq_of_numEq h.1, ih h.2]

end Slot

end TensorGraph

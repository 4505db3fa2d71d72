import TensorGraph.Batch.Ratio
import TensorGraph.Proofs.Batch.Chain
import TensorGraph.Proofs.Operators.Evaluation

/-!
# What a relaxed target is worth

The nodes in front of a relaxed target compute the scaled batch (`relaxedBatch`) from the extents of
the data, and take the other entries from the original target. `Relaxation.Chain.Works.shows_target`
says so of every graph in which they are in their places and follow what they read.
-/

namespace TensorGraph

/-- The integer, clamped to the range of 32 bits. -/
def clampToInt32 (r : Int64) : Int32 :=
  .ofInt (max Int32.minValue.toInt (min Int32.maxValue.toInt r.toInt))

/-- The integers with another one in the first place, clamped to the range of their type. -/
def TensorData.withHead (r : Int64) : TensorData → TensorData
  | i64 xs => i64 (r :: xs.tail)
  | i32 xs => i32 (clampToInt32 r :: xs.tail)
  | data => data

theorem TensorData.exists_integers?_withHead {data : TensorData}
    (h : data.elementType = .i64 ∨ data.elementType = .i32) (r : Int64) :
    ∃ xs, (data.withHead r).integers? = some xs := by
  cases data with
  | i64 xs => exact ⟨_, rfl⟩
  | i32 xs => exact ⟨_, rfl⟩
  | f64 | f32 | u8 | boolean => simp [elementType] at h

theorem TensorData.length_of_integers? {data : TensorData} {xs : List Int}
    (h : data.integers? = some xs) : data.length = xs.length := by
  cases data <;> simp only [integers?, Option.some.injEq, reduceCtorEq] at h <;>
    simp [length, ← h]

/-- The integers of a tensor are integers of 64 bits. -/
theorem TensorData.toInt_ofInt_of_integers? {data : TensorData} {xs : List Int}
    (h : data.integers? = some xs) : ∀ x ∈ xs, (Int64.ofInt x).toInt = x := by
  have wide {x : Int} (low : -2 ^ 63 ≤ x) (high : x < 2 ^ 63) : (Int64.ofInt x).toInt = x :=
    Int64.toInt_ofInt_of_le low high
  cases data <;> simp only [integers?, Option.some.injEq, reduceCtorEq] at h <;> subst h <;>
    intro x hx <;> obtain ⟨y, -, rfl⟩ := List.mem_map.1 hx
  case i64 => exact wide y.le_toInt y.toInt_lt
  case i32 =>
    have low := y.le_toInt
    have high := y.toInt_lt
    exact wide (by omega) (by omega)
  case u8 =>
    have high := y.toNat_lt
    exact wide (by omega) (by omega)

/-- The first integer in its own place changes nothing. -/
theorem TensorData.withHead_eq_self {data : TensorData} {x : Int} {xs : List Int}
    (h : data.integers? = some (x :: xs)) : data.withHead (.ofInt x) = data := by
  cases data with
  | i64 ys =>
    obtain ⟨y, ys, rfl, rfl, -⟩ := List.map_eq_cons_iff.1 (Option.some.inj h)
    rw [withHead, Int64.ofInt_toInt, List.tail_cons]
  | i32 ys =>
    obtain ⟨y, ys, rfl, rfl, -⟩ := List.map_eq_cons_iff.1 (Option.some.inj h)
    have wide := TensorData.toInt_ofInt_of_integers? h y.toInt List.mem_cons_self
    have range : Int32.minValue.toInt ≤ y.toInt ∧ y.toInt ≤ Int32.maxValue.toInt := by
      have least : Int32.minValue.toInt = -2 ^ 31 ∧ Int32.maxValue.toInt = 2 ^ 31 - 1 := by decide
      have low := y.le_toInt
      have high := y.toInt_lt
      omega
    rw [withHead, clampToInt32, wide, min_eq_right range.2, max_eq_right range.1,
      Int32.ofInt_toInt, List.tail_cons]
  | u8 | f64 | f32 | boolean => rfl

/-- Clamping to 64 bits first makes no difference to clamping to 32 bits. -/
theorem Binary.clampToInt32_toInt64 (x : Binary64) : clampToInt32 x.toInt64 = x.toInt32 := by
  have range (i : Int) : max Int32.minValue.toInt (min Int32.maxValue.toInt
      (max Int64.minValue.toInt (min Int64.maxValue.toInt i))) =
      max Int32.minValue.toInt (min Int32.maxValue.toInt i) := by
    have narrow : Int64.minValue.toInt ≤ Int32.minValue.toInt ∧
        Int32.minValue.toInt ≤ Int32.maxValue.toInt ∧
          Int32.maxValue.toInt ≤ Int64.maxValue.toInt := by
      decide
    omega
  have bounds : -2 ^ 63 ≤ x.truncate Int64.minValue.toInt Int64.maxValue.toInt ∧
      x.truncate Int64.minValue.toInt Int64.maxValue.toInt < 2 ^ 63 := by
    have range : Int64.minValue.toInt = -2 ^ 63 ∧ Int64.maxValue.toInt = 2 ^ 63 - 1 := by decide
    rw [Binary.truncate]
    split <;> omega
  rw [clampToInt32, Binary.toInt64, Binary.toInt32, Int64.toInt_ofInt_of_le bounds.1 bounds.2]
  congr 1
  rw [Binary.truncate, Binary.truncate]
  split
  · decide
  · decide
  · decide
  · exact range _

/-- The elements behind the first one, picked by their positions. -/
theorem filterMap_getElem?_range' {α : Type*} (xs : List α) :
    (List.range' 1 (xs.length - 1)).filterMap (xs[·]?) = xs.tail := by
  cases xs with
  | nil => rfl
  | cons x xs =>
    have picked (start : Nat) (ys : List α) (h : ∀ i, (x :: xs)[start + i]? = ys[i]?) :
        (List.range' start ys.length).filterMap ((x :: xs)[·]?) = ys := by
      induction ys generalizing start with
      | nil => rfl
      | cons y ys ih =>
        have here : (x :: xs)[start]? = some y := h 0
        rw [List.length_cons, List.range'_succ, List.filterMap_cons_some here, ih]
        intro i
        rw [Nat.add_assoc, Nat.add_comm 1, h (i + 1), List.getElem?_cons_succ]
    refine picked 1 xs fun i => ?_
    rw [Nat.add_comm, List.getElem?_cons_succ]

/-- Indices within the extent are positions. -/
theorem Gather.mapM_position {extent : Nat} {positions : List Nat}
    (h : ∀ i ∈ positions, i < extent) :
    (positions.map Int.ofNat).mapM (position extent) = .ok positions := by
  induction positions with
  | nil => rfl
  | cons i rest ih =>
    obtain ⟨first, later⟩ := List.forall_mem_cons.1 h
    have here : position extent (Int.ofNat i) = .ok i := by
      have fromStart : ¬Int.ofNat i < 0 := by simp
      have within : ¬((Int.ofNat i) < 0 ∨ (extent : Int) ≤ Int.ofNat i) := by
        simp only [Int.ofNat_eq_natCast]
        omega
      rw [position, if_neg fromStart, if_neg within]
      rfl
    rw [List.map_cons, List.mapM_cons, here, ih later]
    rfl

namespace Relaxation

variable {g : Graph} {c : Candidate} {stem : String} {chain : Chain} {slot : Slot} {b : Nat}
  {dims : List Nat} {p : TensorData} {x : Binary64}

/-- The nodes that compute the target are in their places and follow what they read. -/
def Chain.Works (chain : Chain) (g : Graph) (c : Candidate) (stem : String) : Prop :=
  ∀ planned ∈ c.plan stem chain, g.Computes planned.1 planned.2

/-- The scaled batch as a number. -/
def Candidate.scaledBatch (c : Candidate) (b : Int) : Binary64 :=
  (.ofInt b * .ofInt c.outBatch / .ofInt c.inBatch : Binary64).ceil

theorem toInt_ofInt_natCast {n : Nat} (h : n < 2 ^ 63) :
    (Int64.ofInt (Int.ofNat n)).toInt = Int.ofNat n := by
  rw [Int.ofNat_eq_natCast, Int64.ofInt_eq_ofNat, Int64.toInt_ofNat_of_lt h]

/-- The batch of the target for data of the batch `b`, which is read as an integer of 64 bits. -/
def Candidate.targetBatch (c : Candidate) (b : Nat) : Int64 :=
  (c.scaledBatch (Int64.ofInt b).toInt).toInt64

/-- This is the scaled batch of integers of 64 bits, if the old batch of the data is one. -/
theorem relaxedBatch_eq_targetBatch (hin : c.inBatch < 2 ^ 63) (hpos : 0 < c.inBatch)
    (hout : (Int64.ofInt c.outBatch).toInt = c.outBatch) :
    relaxedBatch (.ofNat b) (.ofNat c.inBatch) (.ofInt c.outBatch) = .ok (c.targetBatch b) := by
  have positive : ¬Int64.ofNat c.inBatch ≤ 0 := by
    rw [Int64.le_iff_toInt_le, Int64.toInt_ofNat_of_lt hin]
    simp
    omega
  rw [relaxedBatch, if_neg positive, Int64.toInt_ofNat_of_lt hin, hout, Candidate.targetBatch,
    Int64.ofInt_eq_ofNat]
  rfl

theorem relaxedBatch_eq_ok (hb : b < 2 ^ 63) (hin : c.inBatch < 2 ^ 63) (hpos : 0 < c.inBatch)
    (hout : (Int64.ofInt c.outBatch).toInt = c.outBatch) :
    relaxedBatch (.ofNat b) (.ofNat c.inBatch) (.ofInt c.outBatch) =
      .ok (c.scaledBatch b).toInt64 := by
  rw [relaxedBatch_eq_targetBatch hin hpos hout, Candidate.targetBatch, ← Int.ofNat_eq_natCast,
    toInt_ofInt_natCast hb]

/-- The batch of the data, as a number. It is read as an integer of 64 bits. -/
theorem Chain.Works.shows_number (h : chain.Works g c stem) (hslot : g.slot c.data = .ok slot)
    (shape : slot.shape = .ofExtents (b :: dims)) :
    g.Shows (output chain.number) ⟨.f64 [.ofInt (Int64.ofInt b).toInt], [1]⟩ := by
  simp only [Chain.Works, Candidate.plan, List.forall_mem_cons] at h
  obtain ⟨shapeOf, first, axis, gather, convert, -⟩ := h
  have within : ([0].map Int.ofNat).mapM
      (Gather.position (Tensor.ofInts ((b :: dims).map Int.ofNat)).length) = .ok [0] :=
    Gather.mapM_position (by simp [Tensor.length, Tensor.ofInts, Tensor.ofData, TensorData.length])
  have batch : g.Shows (output chain.batch) ⟨.i64 [.ofInt b], [1]⟩ :=
    gather.shows_gather rfl rfl (shapeOf.shows_shapeOf rfl rfl rfl hslot shape)
      first.shows_constant axis.shows_constant rfl rfl rfl within rfl
  refine convert.shows_convert rfl rfl rfl batch fun slot shows => ?_
  refine ⟨_, ⟨.f64 [.ofInt (Int64.ofInt b).toInt], [1]⟩, shows.value_eq rfl, ?_, rfl⟩
  simp [Tensor.cast, Tensor.elementType, TensorData.elementType, TensorData.ofBinary64?,
    TensorData.toBinary64]

/-- The scaled batch, as a number. -/
theorem Chain.Works.shows_rounded (h : chain.Works g c stem) (hslot : g.slot c.data = .ok slot)
    (shape : slot.shape = .ofExtents (b :: dims)) (hpos : 0 < c.inBatch) :
    g.Shows (output chain.rounded) ⟨.f64 [c.scaledBatch (Int64.ofInt b).toInt], [1]⟩ := by
  have number := h.shows_number hslot shape
  simp only [Chain.Works, Candidate.plan, List.forall_mem_cons] at h
  obtain ⟨-, -, -, -, -, outBatch, multiply, inBatch, divide, ceiling, -⟩ := h
  have isMultiply : Registry.core.find? "Multiply" =
      some (.binary "Multiply" ⟨(· * ·), (· * ·), some (· * ·)⟩) := rfl
  have isDivide : Registry.core.find? "Divide" =
      some (.binary "Divide" ⟨(· / ·), (· / ·), none⟩) := rfl
  have isCeiling : Registry.core.find? "Ceiling" = some (.unary "Ceiling" ⟨.ceil, .ceil⟩) := rfl
  have scaled := multiply.shows_binary isMultiply rfl number outBatch.shows_constant
    fun _ _ left right => Binary.plain_mul left right
  have ratio := divide.shows_binary isDivide rfl scaled inBatch.shows_constant
    fun x' y' left right => by
      -- the divisor is not a zero, so that it is read as it is
      obtain rfl := (Binary.plain_eq_of_not_isZero (Binary.isZero_ofInt (by omega))).1 right
      exact Binary.plain_div_left left _
  have rounded := ceiling.shows_unary isCeiling rfl ratio fun _ same => Binary.plain_ceil same
  exact rounded

/-- The scaled batch as an element of the target. -/
theorem Chain.Works.shows_modified (h : chain.Works g c stem)
    (rounded : g.Shows (output chain.rounded) ⟨.f64 [x], [1]⟩) {head : TensorData}
    (element : head.elementType = c.element) (integer : c.element ≠ .f64)
    (converted : ∀ y : Binary64, y.plain = x.plain →
      TensorData.ofBinary64? [y] head.elementType = some head) :
    g.Shows (output chain.modified) ⟨head, [1]⟩ := by
  simp only [Chain.Works, Candidate.plan, List.forall_mem_cons] at h
  obtain ⟨-, -, -, -, -, -, -, -, -, -, convert, -⟩ := h
  refine convert.shows_convert rfl rfl rfl rounded fun slot shows => ?_
  obtain ⟨y, value, same⟩ := shows.exists_number
  refine ⟨_, ⟨head, [1]⟩, value, ?_, rfl⟩
  have other : Tensor.elementType ⟨.f64 [y], [1]⟩ ≠ c.element := integer.symm
  rw [Tensor.cast, if_neg other]
  simp only [TensorData.toBinary64, ← element, converted y same]

theorem Candidate.integers?_indices (c : Candidate) (bound : c.length < 2 ^ 63) :
    c.indices.integers? = some ((List.range' 1 (c.length - 1)).map Int.ofNat) := by
  simp only [Candidate.indices, Tensor.ofInts, Tensor.ofData, Tensor.integers?,
    TensorData.integers?, List.map_map, Option.some.injEq]
  refine List.map_congr_left fun i hi => toInt_ofInt_natCast ?_
  rw [List.mem_range'_1] at hi
  omega

/-- The target has entries at all of the indices. -/
theorem Candidate.mapM_position_indices (c : Candidate) :
    ((List.range' 1 (c.length - 1)).map Int.ofNat).mapM (Gather.position c.length) =
      .ok (List.range' 1 (c.length - 1)) := by
  refine Gather.mapM_position fun i hi => ?_
  rw [List.mem_range'_1] at hi
  omega

/-- The other entries of the target. -/
theorem Chain.Works.shows_rest (h : chain.Works g c stem) (target : g.Shows c.target (.ofData p))
    (length : p.length = c.length) (bound : c.length < 2 ^ 63) {xs : List Int}
    (integers : p.integers? = some xs) {rest : TensorData}
    (taken : Gather.elements? (List.range' 1 (p.length - 1)) p = some rest) :
    g.Shows (output chain.rest) ⟨rest, [p.length - 1]⟩ := by
  rw [length] at taken ⊢
  simp only [Chain.Works, Candidate.plan, List.forall_mem_cons] at h
  obtain ⟨-, -, axis, -, -, -, -, -, -, -, -, indices, gather, -⟩ := h
  have within : ((List.range' 1 (c.length - 1)).map Int.ofNat).mapM
      (Gather.position (Tensor.ofData p).length) = .ok (List.range' 1 (c.length - 1)) := by
    rw [Tensor.length, Tensor.ofData, length, c.mapM_position_indices]
  have shows := gather.shows_gather rfl rfl target indices.shows_constant axis.shows_constant rfl
    integers (c.integers?_indices bound) within taken
  have extents : c.indices.extents = [c.length - 1] := by
    simp [Candidate.indices, Tensor.ofInts, Tensor.ofData, TensorData.length]
  rwa [extents] at shows

/-- The scaled batch in front of the other entries. -/
theorem Chain.Works.shows_joined (h : chain.Works g c stem) {head rest joined : TensorData}
    {xs ys : List Int} (modified : g.Shows (output chain.modified) (.ofData head))
    (others : g.Shows (output chain.rest) (.ofData rest)) (knownHead : head.integers? = some xs)
    (knownRest : rest.integers? = some ys)
    (elements : Concat.elements? [.ofData head, .ofData rest] = .ok (some joined)) :
    g.Shows (output chain.target) (.ofData joined) := by
  simp only [Chain.Works, Candidate.plan, List.forall_mem_cons] at h
  obtain ⟨-, -, -, -, -, -, -, -, -, -, -, -, -, concat, -⟩ := h
  exact concat.shows_concat rfl rfl modified others knownHead knownRest elements

/-- The new target is the original one with the scaled batch in the first place. -/
theorem Chain.Works.shows_target_of_rounded (h : chain.Works g c stem)
    (rounded : g.Shows (output chain.rounded) ⟨.f64 [x], [1]⟩)
    (target : g.Shows c.target (.ofData p)) (length : p.length = c.length)
    (element : p.elementType = c.element) (folded : c.element = .i64 ∨ c.element = .i32)
    (hlength : c.length < 2 ^ 63) :
    g.Shows (output chain.target) (.ofData (p.withHead x.toInt64)) := by
  have integer : c.element ≠ .f64 := by
    rcases folded with e | e <;> simp [e]
  cases p with
  | i64 xs =>
    have modified : g.Shows (output chain.modified) ⟨.i64 [x.toInt64], [1]⟩ :=
      h.shows_modified rounded element integer fun y same => by
        rw [← Binary.toInt64_eq same]
        rfl
    have rest : g.Shows (output chain.rest) ⟨.i64 xs.tail, [xs.length - 1]⟩ :=
      h.shows_rest target length hlength rfl
        (congrArg (some ∘ TensorData.i64) (filterMap_getElem?_range' xs))
    rw [← List.length_tail] at rest
    rw [TensorData.withHead]
    exact h.shows_joined modified rest rfl rfl (by
      simp [Concat.elements?, Concat.appendAll, Tensor.ofData])
  | i32 xs =>
    have modified : g.Shows (output chain.modified) ⟨.i32 [x.toInt32], [1]⟩ :=
      h.shows_modified rounded element integer fun y same => by
        rw [← Binary.toInt32_eq same]
        rfl
    have rest : g.Shows (output chain.rest) ⟨.i32 xs.tail, [xs.length - 1]⟩ :=
      h.shows_rest target length hlength rfl
        (congrArg (some ∘ TensorData.i32) (filterMap_getElem?_range' xs))
    rw [← List.length_tail] at rest
    rw [TensorData.withHead, Binary.clampToInt32_toInt64]
    exact h.shows_joined modified rest rfl rfl (by
      simp [Concat.elements?, Concat.appendAll, Tensor.ofData])
  | f64 | f32 | u8 | boolean => simp [← element, TensorData.elementType] at folded

theorem Chain.Works.shows_target (h : chain.Works g c stem) (hslot : g.slot c.data = .ok slot)
    (shape : slot.shape = .ofExtents (b :: dims)) (target : g.Shows c.target (.ofData p))
    (length : p.length = c.length) (element : p.elementType = c.element)
    (folded : c.element = .i64 ∨ c.element = .i32) (hb : b < 2 ^ 63) (hlength : c.length < 2 ^ 63)
    (hpos : 0 < c.inBatch) :
    g.Shows (output chain.target) (.ofData (p.withHead (c.scaledBatch b).toInt64)) := by
  have rounded := h.shows_rounded hslot shape hpos
  rw [← Int.ofNat_eq_natCast, toInt_ofInt_natCast hb] at rounded
  exact h.shows_target_of_rounded rounded target length element folded hlength

end Relaxation

end TensorGraph

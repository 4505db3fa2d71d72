import Mathlib.Data.List.Forall2
import TensorGraph.Broadcast

/-!
# The places of a tensor

A place has one coordinate below the extent of each axis (`Shape.Within`), and places are numbered
in row-major order (`Shape.number`). An odometer that goes through the places counts these numbers
(`Broadcast.number_advance`), so that it shows every place once, each at its number
(`Broadcast.getElem?_places`).
-/

namespace TensorGraph

variable {extents place other : List Nat}

namespace Shape

/-- The coordinates are below the extents, one for each. -/
def Within (place extents : List Nat) : Prop := List.Forall₂ (· < ·) place extents

/-- The number of a place in row-major order. -/
def number : List Nat → List Nat → Nat
  | _ :: extents, i :: place => i * count extents + number extents place
  | _, _ => 0

theorem number_lt (h : Within place extents) : number extents place < count extents := by
  induction h with
  | nil => exact Nat.one_pos
  | @cons i extent place extents first _ ih =>
    calc i * count extents + number extents place
        < i * count extents + count extents := Nat.add_lt_add_left ih _
      _ = (i + 1) * count extents := by rw [Nat.add_mul, Nat.one_mul]
      _ ≤ extent * count extents := Nat.mul_le_mul_right _ first

/-- Different places have different numbers. -/
theorem number_injective (h : Within place extents) (h' : Within other extents)
    (same : number extents place = number extents other) : place = other := by
  induction h generalizing other with
  | nil => exact (List.forall₂_nil_right_iff.1 h').symm
  | @cons i extent place extents _ rest ih =>
    obtain ⟨j, other, _, rest', rfl⟩ := List.forall₂_cons_right_iff.1 h'
    have positive : 0 < count extents := Nat.zero_lt_of_lt (number_lt rest)
    simp only [number] at same
    -- The remainder of the number by the span of the later axes is the number along these.
    have later : number extents place = number extents other := by
      have remainder := congrArg (· % count extents) same
      simpa [Nat.mod_eq_of_lt, number_lt rest, number_lt rest'] using remainder
    have first : i = j := Nat.eq_of_mul_eq_mul_right positive (by omega)
    rw [first, ih rest' later]

/-- If there is any place at all, there is the first one. -/
theorem within_first (h : count extents ≠ 0) :
    Within (List.replicate extents.length 0) extents := by
  induction extents with
  | nil => exact .nil
  | cons extent extents ih =>
    obtain ⟨here, later⟩ := Nat.mul_ne_zero_iff.1 h
    exact .cons (Nat.pos_of_ne_zero here) (ih later)

theorem number_first (extents : List Nat) :
    number extents (List.replicate extents.length 0) = 0 := by
  induction extents with
  | nil => rfl
  | cons extent extents ih => simp [List.replicate_succ, number, ih]

end Shape

namespace Broadcast

open Shape

/-! ### The odometer -/

/-- How an axis moves depends on the carry out of the axes behind it. -/
theorem advance_cons (extent i : Nat) (extents place : List Nat) :
    advance (extent :: extents) (i :: place) =
      if (advance extents place).1 then
        if i + 1 < extent then (false, (i + 1) :: (advance extents place).2)
        else (true, 0 :: (advance extents place).2)
      else (false, i :: (advance extents place).2) := by
  rw [advance]
  rcases advance extents place with ⟨_ | _, _⟩ <;> rfl

theorem within_advance (h : Within place extents) : Within (advance extents place).2 extents := by
  induction h with
  | nil => exact .nil
  | cons first _ ih =>
    rw [advance_cons]
    split_ifs with carry below
    · exact .cons below ih
    · exact .cons (Nat.zero_lt_of_lt first) ih
    · exact .cons first ih

/-- Turning on adds 1 to the number; the carry out of the first axis stands for all places. -/
theorem number_advance_add (h : Within place extents) :
    number extents (advance extents place).2 +
      (if (advance extents place).1 then count extents else 0) = number extents place + 1 := by
  induction h with
  | nil => rfl
  | @cons i extent place extents first _ ih =>
    rw [advance_cons]
    by_cases carry : (advance extents place).1
    · rw [if_pos carry] at ih ⊢
      by_cases below : i + 1 < extent
      · simp only [if_pos below, number, Bool.false_eq_true, if_false, Nat.add_mul, Nat.one_mul]
        omega
      · obtain rfl : extent = i + 1 := by omega
        simp only [if_neg below, number, count, if_true, Nat.add_mul, Nat.one_mul]
        omega
    · rw [if_neg carry] at ih ⊢
      simp only [number, Bool.false_eq_true, if_false]
      omega

/-- The odometer counts the places and begins again after the last one. -/
theorem number_advance (h : Within place extents) :
    number extents (advance extents place).2 = (number extents place + 1) % count extents := by
  have low : number extents (advance extents place).2 < count extents :=
    number_lt (within_advance h)
  rw [← number_advance_add h]
  split
  · rw [Nat.add_mod_right, Nat.mod_eq_of_lt low]
  · rw [Nat.add_zero, Nat.mod_eq_of_lt low]

/-- From a place on, the odometer shows places whose numbers are counted on from its number. -/
theorem readings_eq (turns : Nat) (seen : Array (List Nat)) {k : Nat} (h : Within place extents)
    (start : number extents place = k % count extents) :
    ∃ later : List (List Nat), (readings extents turns place seen).toList = seen.toList ++ later ∧
      (∀ p ∈ later, Within p extents) ∧
      later.map (number extents) = (List.range' k turns).map (· % count extents) := by
  induction turns generalizing seen place k with
  | zero => exact ⟨[], by simp [readings], by simp, rfl⟩
  | succ turns ih =>
    have next : number extents (advance extents place).2 = (k + 1) % count extents := by
      rw [number_advance h, start, Nat.mod_add_mod]
    obtain ⟨later, rest, within, numbers⟩ := ih (seen.push place) (within_advance h) next
    refine ⟨place :: later, ?_, List.forall_mem_cons.2 ⟨h, within⟩, ?_⟩
    · simp [readings, rest]
    · rw [List.map_cons, numbers, start, List.range'_succ, List.map_cons]

/-- The odometer shows places, in the order of their numbers, from the first to the last. -/
theorem places_spec (extents : List Nat) :
    (∀ p ∈ places extents, Within p extents) ∧
      (places extents).map (number extents) = List.range (count extents) := by
  by_cases none : count extents = 0
  · simp [places, readings, none]
  · obtain ⟨later, all, within, numbers⟩ := readings_eq (count extents) #[] (k := 0)
      (within_first none) (by rw [number_first, Nat.zero_mod])
    obtain rfl : later = places extents := by simpa [places] using all.symm
    refine ⟨within, numbers.trans ?_⟩
    rw [List.range_eq_range']
    calc (List.range' 0 (count extents)).map (· % count extents)
        = (List.range' 0 (count extents)).map id :=
          List.map_congr_left fun k hk => Nat.mod_eq_of_lt (by simpa using hk)
      _ = List.range' 0 (count extents) := List.map_id _

theorem within_of_mem_places (h : place ∈ places extents) : Within place extents :=
  (places_spec extents).1 place h

theorem length_places (extents : List Nat) : (places extents).length = count extents := by
  simpa using congrArg List.length (places_spec extents).2

/-- Every place is shown at its number. -/
theorem getElem?_places (h : Within place extents) :
    (places extents)[number extents place]? = some place := by
  have numbered : ((places extents).map (number extents))[number extents place]? =
      some (number extents place) := by
    rw [(places_spec extents).2, List.getElem?_range (number_lt h)]
  rw [List.getElem?_map, Option.map_eq_some_iff] at numbered
  obtain ⟨shown, here, same⟩ := numbered
  have within : Within shown extents := within_of_mem_places (List.mem_of_getElem? here)
  rw [here, number_injective within h same]

/-- Every number below that of all places is the number of one. -/
theorem exists_number_eq {k : Nat} (h : k < count extents) :
    ∃ place, Within place extents ∧ number extents place = k := by
  have shown : k ∈ (places extents).map (number extents) := by
    rw [(places_spec extents).2]
    exact List.mem_range.2 h
  obtain ⟨place, hplace, rfl⟩ := List.mem_map.1 shown
  exact ⟨place, within_of_mem_places hplace, rfl⟩

/-- The last axis moves fastest, and an axis of extent 1 stays where it is. -/
example : places [2, 1, 3] =
    [[0, 0, 0], [0, 0, 1], [0, 0, 2], [1, 0, 0], [1, 0, 1], [1, 0, 2]] := by decide

end Broadcast

end TensorGraph

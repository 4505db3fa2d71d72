import TensorGraph.Proofs.Lists
import TensorGraph.Proofs.Tensor.Broadcast
import TensorGraph.Proofs.Tensor.Places

/-!
# Operations place by place

Under each place of the common extents lies one place of each operand (`Broadcast.under`): its axes
are aligned from the right, and along axes of extent 1 it does not move. What an operation place by
place has to give is said by these places alone (`Broadcast.Pointwise`). The strides lead the
odometer to them, so that the sweep over the places gives it and looks up nothing beyond the
operands, and of equal extents the shortcut gives the same (`Broadcast.elementwise_spec`).
-/

namespace TensorGraph

namespace Broadcast

open Shape

variable {α : Type} {f : α → α → α} {xs ys zs zs' : List α}
  {a b common extents place : List Nat}

/-- The coordinates with 0 along the axes of extent 1. -/
def stretched (extents place : List Nat) : List Nat :=
  List.zipWith (fun extent i => if extent = 1 then 0 else i) extents place

/-- The place of an operand that lies under a place of the common extents: its axes are the last
ones, and it stays at 0 along those of extent 1. -/
def under (extents place : List Nat) : List Nat :=
  stretched extents (place.drop (place.length - extents.length))

/-- The elements `zs` over the common extents are those of `f`, at each place applied to the
elements of the operands at the places under it. -/
structure Pointwise (f : α → α → α) (xs : List α) (a : List Nat) (ys : List α) (b : List Nat)
    (common : List Nat) (zs : List α) : Prop where
  length : zs.length = count common
  element : ∀ place, Within place common → ∃ x y, xs[number a (under a place)]? = some x ∧
    ys[number b (under b place)]? = some y ∧ zs[number common place]? = some (f x y)

/-- There is only one list of elements that are right at each place. -/
theorem Pointwise.unique (h : Pointwise f xs a ys b common zs)
    (h' : Pointwise f xs a ys b common zs') : zs = zs' := by
  refine List.ext_getElem? fun k => ?_
  by_cases low : k < count common
  · obtain ⟨place, within, rfl⟩ := exists_number_eq low
    obtain ⟨x, y, hx, hy, hz⟩ := h.element place within
    obtain ⟨x', y', hx', hy', hz'⟩ := h'.element place within
    obtain rfl : x = x' := Option.some.inj (hx.symm.trans hx')
    obtain rfl : y = y' := Option.some.inj (hy.symm.trans hy')
    rw [hz, hz']
  · rw [List.getElem?_eq_none (by rw [h.length]; omega),
      List.getElem?_eq_none (by rw [h'.length]; omega)]

/-! ### Strides -/

theorem span_eq_count (extents : List Nat) : (extents.foldr addAxis (1, [])).1 = count extents := by
  induction extents with
  | nil => rfl
  | cons extent extents ih => rw [List.foldr_cons, addAxis, ih, count, Nat.mul_comm]

theorem strides_cons (extent : Nat) (extents : List Nat) :
    strides (extent :: extents) =
      (if extent = 1 then 0 else count extents) :: strides extents := by
  rw [strides, List.foldr_cons, addAxis, span_eq_count, strides]

theorem position_strides (extents place : List Nat) :
    position (strides extents) place = number extents (stretched extents place) := by
  induction extents generalizing place with
  | nil => rfl
  | cons extent extents ih =>
    cases place with
    | nil => simp [strides_cons, position, stretched, number]
    | cons i place =>
      rw [strides_cons, position, ih, stretched, stretched, List.zipWith_cons_cons, number]
      split <;> simp

theorem position_replicate_append (k : Nat) (strides place : List Nat) :
    position (List.replicate k 0 ++ strides) place = position strides (place.drop k) := by
  induction k generalizing place with
  | zero => rfl
  | succ k ih =>
    cases place with
    | nil => simp [List.replicate_succ, position]
    | cons i place => simp [List.replicate_succ, position, ih]

/-- The strides lead from a place of the common extents to the number of the place under it. -/
theorem position_stridesOver (h : Within place common) :
    position (stridesOver common.length extents) place = number extents (under extents place) := by
  rw [stridesOver, position_replicate_append, position_strides, under, h.length_eq]

/-! ### Places of the operands -/

theorem rank_le_of_fits (fits : Fits (pad common.length a) common) : a.length ≤ common.length := by
  have length := fits.length_eq
  simp only [pad, List.length_append, List.length_replicate] at length
  omega

theorem within_stretched (fits : Fits extents common) (h : Within place common) :
    Within (stretched extents place) extents := by
  induction fits generalizing place with
  | nil =>
    obtain rfl := List.forall₂_nil_right_iff.1 h
    exact .nil
  | @cons extent c extents common fit _ ih =>
    obtain ⟨i, place, below, later, rfl⟩ := List.forall₂_cons_right_iff.1 h
    have here : (if extent = 1 then 0 else i) < extent := by
      split
      · next one => exact one ▸ Nat.one_pos
      · next other => exact fit.resolve_left other ▸ below
    exact .cons here (ih later)

theorem within_under (fits : Fits (pad common.length a) common) (h : Within place common) :
    Within (under a place) a := by
  have aligned : Fits a (common.drop (common.length - a.length)) := by
    simpa [Fits, pad] using List.forall₂_drop (common.length - a.length) fits
  rw [under, h.length_eq]
  exact within_stretched aligned (List.forall₂_drop _ h)

/-- Every position that the strides lead to is one of the operand. -/
theorem position_lt (fits : Fits (pad common.length a) common) (hxs : xs.length = count a)
    (h : Within place common) : position (stridesOver common.length a) place < xs.length := by
  rw [position_stridesOver h, hxs]
  exact number_lt (within_under fits h)

/-- A place lies under itself: along an axis of extent 1 its coordinate is 0 anyway. -/
theorem under_self (h : Within place extents) : under extents place = place := by
  rw [under, h.length_eq, Nat.sub_self, List.drop_zero]
  induction h with
  | nil => rfl
  | @cons i extent place extents below _ ih =>
    rw [stretched, List.zipWith_cons_cons, ← stretched, ih]
    split
    · next one =>
      obtain rfl : i = 0 := Nat.lt_one_iff.1 (one ▸ below)
      rfl
    · rfl

/-! ### Elements -/

theorem exists_element? (f : α → α → α) (hxs : xs.length = count a) (hys : ys.length = count b)
    (fitsA : Fits (pad common.length a) common) (fitsB : Fits (pad common.length b) common)
    (h : Within place common) :
    ∃ x y, xs[number a (under a place)]? = some x ∧ ys[number b (under b place)]? = some y ∧
      element? f xs.toArray ys.toArray (stridesOver common.length a) (stridesOver common.length b)
        place = some (f x y) := by
  have hx := List.getElem?_eq_getElem (position_lt fitsA hxs h)
  have hy := List.getElem?_eq_getElem (position_lt fitsB hys h)
  rw [← position_stridesOver h, ← position_stridesOver h]
  exact ⟨_, _, hx, hy, by simp [element?, hx, hy]⟩

/-- The sweep over the places gives the element of every place. -/
theorem pointwise_sweep (f : α → α → α) (hxs : xs.length = count a) (hys : ys.length = count b)
    (fitsA : Fits (pad common.length a) common) (fitsB : Fits (pad common.length b) common) :
    Pointwise f xs a ys b common (sweep f xs a ys b common) := by
  -- No place is left out, so that the elements keep the numbers of the places.
  have swept : (sweep f xs a ys b common).map some = (places common).map (element? f xs.toArray
      ys.toArray (stridesOver common.length a) (stridesOver common.length b)) := by
    refine map_some_filterMap fun place shown => ?_
    obtain ⟨x, y, _, _, found⟩ :=
      exists_element? f hxs hys fitsA fitsB (within_of_mem_places shown)
    exact ⟨f x y, found⟩
  refine ⟨?_, fun place h => ?_⟩
  · simpa [length_places] using congrArg List.length swept
  · obtain ⟨x, y, hx, hy, found⟩ := exists_element? f hxs hys fitsA fitsB h
    have here := congrArg (·[number common place]?) swept
    simp only [List.getElem?_map, getElem?_places h, Option.map_some, found] at here
    obtain ⟨z, hz, same⟩ := Option.map_eq_some_iff.1 here
    exact ⟨x, y, hx, hy, hz.trans same⟩

/-- Of equal extents the elements with the same number belong together. -/
theorem pointwise_zipWith (f : α → α → α) (hxs : xs.length = count a) (hys : ys.length = count a) :
    Pointwise f xs a ys a a (List.zipWith f xs ys) := by
  refine ⟨by rw [List.length_zipWith, hxs, hys, Nat.min_self], fun place h => ?_⟩
  have low : number a place < count a := number_lt h
  have hx := List.getElem?_eq_getElem (hxs.symm ▸ low : number a place < xs.length)
  have hy := List.getElem?_eq_getElem (hys.symm ▸ low : number a place < ys.length)
  rw [under_self h]
  exact ⟨_, _, hx, hy, List.getElem?_zipWith_eq_some.2 ⟨_, _, hx, hy, rfl⟩⟩

theorem pointwise_elementwise (f : α → α → α) (hxs : xs.length = count a)
    (hys : ys.length = count b) (h : broadcastExtents a b = .ok common) :
    Pointwise f xs a ys b common (elementwise f xs a ys b common) := by
  unfold elementwise
  split
  · next same =>
    subst same
    obtain rfl := broadcastExtents_self h
    exact pointwise_zipWith f hxs hys
  · obtain ⟨_, fitsA, fitsB⟩ := broadcastExtents_eq_ok h
    exact pointwise_sweep f hxs hys fitsA fitsB

/-- An operation place by place has as many elements as the common extents span. -/
theorem length_elementwise (f : α → α → α) (hxs : xs.length = count a) (hys : ys.length = count b)
    (h : broadcastExtents a b = .ok common) :
    (elementwise f xs a ys b common).length = count common :=
  (pointwise_elementwise f hxs hys h).length

/-- An operation place by place gives the element of every place of the common extents. No operand
has more axes than these, all positions that are looked up are within the operands, and operands of
equal extents are put together as the sweep would do it. -/
theorem elementwise_spec (f : α → α → α) (hxs : xs.length = count a) (hys : ys.length = count b)
    (h : broadcastExtents a b = .ok common) :
    Pointwise f xs a ys b common (elementwise f xs a ys b common) ∧
      (a.length ≤ common.length ∧ b.length ≤ common.length) ∧
      (∀ place ∈ places common, position (stridesOver common.length a) place < xs.length ∧
        position (stridesOver common.length b) place < ys.length) ∧
      (a = b → List.zipWith f xs ys = sweep f xs a ys b common) := by
  obtain ⟨_, fitsA, fitsB⟩ := broadcastExtents_eq_ok h
  refine ⟨pointwise_elementwise f hxs hys h, ⟨rank_le_of_fits fitsA, rank_le_of_fits fitsB⟩, ?_, ?_⟩
  · intro place shown
    have within : Within place common := within_of_mem_places shown
    exact ⟨position_lt fitsA hxs within, position_lt fitsB hys within⟩
  · rintro rfl
    obtain rfl := broadcastExtents_self h
    exact (pointwise_zipWith f hxs hys).unique (pointwise_sweep f hxs hys fitsA fitsB)

/-- Two rows of three over a column of two: the operands are stretched along different axes, and the
column has one axis less. -/
theorem elementwise_rowsOverColumn :
    ([1, 2, 3, 4, 5, 6] : List Int).length = count [2, 1, 3] ∧
      ([10, 20] : List Int).length = count [2, 1] ∧
      broadcastExtents [2, 1, 3] [2, 1] = .ok [2, 2, 3] ∧
      Pointwise (fun x y : Int => x - y) [1, 2, 3, 4, 5, 6] [2, 1, 3] [10, 20] [2, 1] [2, 2, 3]
        [-9, -8, -7, -19, -18, -17, -6, -5, -4, -16, -15, -14] ∧
      (∀ place ∈ places [2, 2, 3], position (stridesOver 3 [2, 1, 3]) place < 6 ∧
        position (stridesOver 3 [2, 1]) place < 2) ∧
      List.zipWith (fun x y : Int => x - y) [1, 2] [3, 5] =
        sweep (fun x y : Int => x - y) [1, 2] [2, 1] [3, 5] [2, 1] [2, 1] := by
  have rows : ([1, 2, 3, 4, 5, 6] : List Int).length = count [2, 1, 3] := rfl
  have column : ([10, 20] : List Int).length = count [2, 1] := rfl
  obtain ⟨pointwise, _, within, _⟩ := elementwise_spec (fun x y : Int => x - y) rows column rfl
  exact ⟨rows, column, rfl, pointwise, within, (elementwise_spec _ rfl rfl rfl).2.2.2 rfl⟩

/-- An operand without axes lies under every place, and an extent of 0 leaves none. -/
example : elementwise (· + ·) [7] [] [1, 2] [2, 1] [2, 1] = [8, 9] ∧
    elementwise (· + ·) [7] [] [] [0, 3] [0, 3] = [] := by decide

end Broadcast

end TensorGraph

import Mathlib.Data.List.Forall2
import TensorGraph.Broadcast

/-!
# Broadcasting of fixed shapes

Over shapes that are fixed broadcasting gives a fixed shape that both fit: each extent, after
filling up with ones, is 1 or the common extent.
-/

namespace TensorGraph

namespace Shape

/-- Every extent is the common one or is stretched to it. -/
def Fits (extents common : List Nat) : Prop :=
  List.Forall₂ (fun e c => e = 1 ∨ e = c) extents common

/-- The extents filled up with ones on the left. -/
def pad (rank : Nat) (extents : List Nat) : List Nat :=
  List.replicate (rank - extents.length) 1 ++ extents

theorem length_pad {rank : Nat} {extents : List Nat} (h : extents.length ≤ rank) :
    (pad rank extents).length = rank := by
  simp [pad, h]

theorem padLeft_map_fixed (rank : Nat) (extents : List Nat) :
    padLeft rank (extents.map .fixed) = (pad rank extents).map .fixed := by
  simp [padLeft, pad]

theorem broadcast_fixed {a b : Nat} {dim : Dim} (h : (Dim.fixed a).broadcast (.fixed b) = .ok dim) :
    ∃ c, dim = .fixed c ∧ (a = 1 ∨ a = c) ∧ (b = 1 ∨ b = c) := by
  simp only [Dim.broadcast] at h
  split_ifs at h with oneA oneB same
  · exact ⟨b, (Except.ok.inj h).symm, .inl oneA, .inr rfl⟩
  · exact ⟨a, (Except.ok.inj h).symm, .inr rfl, .inl oneB⟩
  · exact ⟨a, (Except.ok.inj h).symm, .inr rfl, .inr same.symm⟩

theorem broadcastDims_fixed {position : Nat} {as bs : List Nat} {dims : List Dim}
    (length : as.length = bs.length)
    (h : broadcastDims position (as.map .fixed) (bs.map .fixed) = .ok dims) :
    ∃ common : List Nat, dims = common.map .fixed ∧ Fits as common ∧ Fits bs common := by
  induction as generalizing position bs dims with
  | nil =>
    obtain rfl : bs = [] := List.eq_nil_of_length_eq_zero length.symm
    obtain rfl := Except.ok.inj h
    exact ⟨[], rfl, .nil, .nil⟩
  | cons a as ih =>
    obtain ⟨b, bs, rfl⟩ := List.exists_cons_of_length_eq_add_one length.symm
    simp only [List.map_cons, broadcastDims] at h
    split at h
    · cases h
    · next dim hdim =>
      split at h
      · cases h
      · next rest hrest =>
        obtain rfl := Except.ok.inj h
        obtain ⟨common, rfl, fitsA, fitsB⟩ := ih (Nat.succ.inj length) hrest
        obtain ⟨c, rfl, fitA, fitB⟩ := broadcast_fixed hdim
        exact ⟨c :: common, rfl, .cons fitA fitsA, .cons fitB fitsB⟩

theorem broadcastDims_self (position : Nat) (as : List Nat) :
    broadcastDims position (as.map .fixed) (as.map .fixed) = .ok (as.map .fixed) := by
  induction as generalizing position with
  | nil => rfl
  | cons a as ih =>
    have self : (Dim.fixed a).broadcast (.fixed a) = .ok (.fixed a) := by simp [Dim.broadcast]
    simp only [List.map_cons, broadcastDims, self, ih]

theorem broadcast_ofExtents {a b : List Nat} {shape : Shape}
    (h : (ofExtents a).broadcast (ofExtents b) = .ok shape) :
    ∃ common, shape = ofExtents common ∧ Fits (pad (max a.length b.length) a) common ∧
      Fits (pad (max a.length b.length) b) common := by
  simp only [ofExtents, broadcast, List.length_map, padLeft_map_fixed] at h
  split at h
  · next dims hdims =>
    obtain rfl := Except.ok.inj h
    have length :
        (pad (max a.length b.length) a).length = (pad (max a.length b.length) b).length := by
      rw [length_pad (Nat.le_max_left ..), length_pad (Nat.le_max_right ..)]
    obtain ⟨common, rfl, fits⟩ := broadcastDims_fixed length hdims
    exact ⟨common, rfl, fits⟩
  · cases h

/-- The common extents, the common shape, and how the operands fit them. -/
theorem broadcastExtents_eq_ok {a b common : List Nat} (h : broadcastExtents a b = .ok common) :
    (ofExtents a).broadcast (ofExtents b) = .ok (ofExtents common) ∧
      Fits (pad common.length a) common ∧ Fits (pad common.length b) common := by
  unfold broadcastExtents at h
  split at h
  · cases h
  · next shape hshape =>
    obtain ⟨extents, rfl, fitsA, fitsB⟩ := broadcast_ofExtents hshape
    rw [extents?_ofExtents] at h
    obtain rfl := Except.ok.inj h
    have rank : max a.length b.length = extents.length := by
      rw [← fitsA.length_eq, length_pad (Nat.le_max_left ..)]
    exact ⟨hshape, rank ▸ fitsA, rank ▸ fitsB⟩

theorem broadcastExtents_self {a common : List Nat} (h : broadcastExtents a a = .ok common) :
    common = a := by
  have same := (broadcastExtents_eq_ok h).1
  have padded : pad (max a.length a.length) a = a := by simp [pad]
  simp only [ofExtents, broadcast, List.length_map, padLeft_map_fixed, padded,
    broadcastDims_self, Except.ok.injEq, ranked.injEq] at same
  exact (List.map_injective_iff.2 (fun _ _ => Dim.fixed.inj) same).symm

end Shape

end TensorGraph

/-!
# Shapes

A shape may be known only in part: a dimension may be dynamic, and so may the rank.
-/

namespace TensorGraph

/-- One dimension of a shape. -/
inductive Dim where
  /-- An extent that is known. -/
  | fixed (extent : Nat)
  /-- An extent that is known only when the graph runs. -/
  | dynamic
deriving DecidableEq, Repr

namespace Dim

/-- The extent, if it is known. -/
def extent? : Dim → Option Nat
  | fixed n => some n
  | dynamic => none

/-- Is the extent known? -/
def isFixed (d : Dim) : Bool := d.extent?.isSome

theorem extent?_eq_some_iff {d : Dim} {n : Nat} : d.extent? = some n ↔ d = fixed n := by
  cases d <;> simp [extent?]

/-- The extent, or a question mark. -/
def text : Dim → String
  | fixed n => toString n
  | dynamic => "?"

end Dim

/-- A shape that is known in part. -/
inductive Shape where
  /-- Not even the rank is known. -/
  | unranked
  /-- The rank is known, and the dimensions as far as they are fixed. -/
  | ranked (dims : List Dim)
deriving DecidableEq, Repr

namespace Shape

/-- The shape with the given extents. -/
def ofExtents (extents : List Nat) : Shape := ranked (extents.map .fixed)

/-- The shape of the given rank of which nothing else is known. -/
def ofRank (rank : Nat) : Shape := ranked (List.replicate rank .dynamic)

/-- The shape of a single element. -/
def scalar : Shape := ranked []

/-- The dimensions, if the rank is known. -/
def dims? : Shape → Option (List Dim)
  | unranked => none
  | ranked dims => some dims

/-- The number of dimensions, if it is known. -/
def rank? (s : Shape) : Option Nat := s.dims?.map List.length

/-- The dimension at position `i`, if the rank is known and above `i`. -/
def dim? (s : Shape) (i : Nat) : Option Dim := s.dims?.bind (·[i]?)

/-- The extents, if every dimension is fixed. -/
def extents? : Shape → Option (List Nat)
  | unranked => none
  | ranked dims => dims.mapM Dim.extent?

/-- Is every dimension fixed? -/
def isFixed : Shape → Bool
  | unranked => false
  | ranked dims => dims.all Dim.isFixed

@[simp] theorem extents?_ofExtents (extents : List Nat) :
    (ofExtents extents).extents? = some extents := by
  induction extents with
  | nil => rfl
  | cons extent rest ih =>
    simp only [ofExtents, extents?, List.map_cons, List.mapM_cons] at ih ⊢
    simp [ih, Dim.extent?]

theorem extents?_eq_some_iff {s : Shape} {extents : List Nat} :
    s.extents? = some extents ↔ s = ofExtents extents := by
  constructor
  · intro h
    cases s with
    | unranked => simp [extents?] at h
    | ranked dims =>
      induction dims generalizing extents with
      | nil => simp_all [extents?, ofExtents]
      | cons d ds ih =>
        simp only [extents?, List.mapM_cons, Option.bind_eq_bind, Option.bind_eq_some_iff] at h ih
        obtain ⟨n, hn, ns, hns, h⟩ := h
        obtain rfl := Option.some.inj h
        have htail := ih hns
        simp only [ofExtents, ranked.injEq, List.map_cons, List.cons.injEq] at htail ⊢
        exact ⟨Dim.extent?_eq_some_iff.1 hn, htail⟩
  · rintro rfl
    exact extents?_ofExtents extents

theorem isFixed_iff {s : Shape} : s.isFixed ↔ ∃ extents, s = ofExtents extents := by
  constructor
  · intro h
    cases s with
    | unranked => simp [isFixed] at h
    | ranked dims =>
      induction dims with
      | nil => exact ⟨[], rfl⟩
      | cons d ds ih =>
        simp only [isFixed, List.all_cons, Bool.and_eq_true] at h ih
        obtain ⟨extents, he⟩ := ih h.2
        obtain ⟨n, hn⟩ := Option.isSome_iff_exists.1 h.1
        obtain rfl := Dim.extent?_eq_some_iff.1 hn
        exact ⟨n :: extents, by simpa [ofExtents] using he⟩
  · rintro ⟨extents, rfl⟩
    simp [isFixed, ofExtents, Dim.isFixed, Dim.extent?]

@[simp] theorem rank?_ofExtents (extents : List Nat) :
    (ofExtents extents).rank? = some extents.length := by
  simp [rank?, dims?, ofExtents]

/-- The shape with dimension `i` replaced; without a dimension `i` it stays as it is. -/
def withDim (i : Nat) (d : Dim) : Shape → Shape
  | unranked => unranked
  | ranked dims => ranked (dims.set i d)

/-- The dimensions in brackets, or three dots if the rank is unknown. -/
def text : Shape → String
  | unranked => "[...]"
  | ranked dims => "[" ++ ",".intercalate (dims.map Dim.text) ++ "]"

/-- The number of elements that the extents span, their product. -/
def count : List Nat → Nat
  | [] => 1
  | extent :: rest => extent * count rest

theorem count_append (a b : List Nat) : count (a ++ b) = count a * count b := by
  induction a with
  | nil => simp [count]
  | cons extent rest ih => simp [count, ih, Nat.mul_assoc]

end Shape

end TensorGraph

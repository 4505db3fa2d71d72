import TensorGraph.Proofs.Operators.Success
import Mathlib.Data.List.Forall2

/-!
# Grouping of element-wise operations

A dimension stretches to another one if broadcasting the two gives the other one: 1 stretches to
every dimension, a dynamic one to every dimension but 1, another extent only to itself. Shapes
stretch place by place, counted from the right. Broadcasting two shapes gives the least shape that
both stretch to (`Shape.exists_broadcast_iff`), which says nothing of an order. Whatever the order
and the grouping of element-wise operations, the result has the least shape that all operands
stretch to, and there is none if they stretch to no shape (`Shape.broadcast_regroup`).
-/

namespace TensorGraph

/-! ### Dimensions -/

namespace Dim

/-- Broadcasting the two dimensions gives the second one. -/
def StretchesTo (d e : Dim) : Prop := d = e ∨ d = fixed 1 ∨ d = dynamic ∧ e ≠ fixed 1

variable {d e x : Dim}

theorem stretchesTo_refl (d : Dim) : d.StretchesTo d := .inl rfl

theorem one_stretchesTo (d : Dim) : (fixed 1).StretchesTo d := .inr (.inl rfl)

theorem StretchesTo.antisymm (h : d.StretchesTo e) (back : e.StretchesTo d) : d = e := by
  rcases h with same | rfl | ⟨rfl, other⟩
  · exact same
  · rcases back with same | same | ⟨-, absurd⟩
    · exact same.symm
    · exact same.symm
    · exact (absurd rfl).elim
  · rcases back with same | one | ⟨same, -⟩
    · exact same.symm
    · exact (other one).elim
    · exact same.symm

/-- The common dimension is the least one that both stretch to. -/
theorem exists_broadcast_iff :
    (∃ c, d.broadcast e = .ok c ∧ c.StretchesTo x) ↔ d.StretchesTo x ∧ e.StretchesTo x := by
  cases d <;> cases e <;> cases x <;> simp only [broadcast, StretchesTo] <;> grind

end Dim

/-! ### Shapes -/

namespace Shape

/-- The dimensions stretch place by place, counted from the right. -/
def DimsStretchTo (ds xs : List Dim) : Prop :=
  ∃ front back, xs = front ++ back ∧ List.Forall₂ Dim.StretchesTo ds back

variable {ds es fs xs : List Dim} {s : Shape}

theorem dimsStretchTo_refl (ds : List Dim) : DimsStretchTo ds ds :=
  ⟨[], ds, rfl, List.forall₂_same.2 fun d _ => d.stretchesTo_refl⟩

theorem DimsStretchTo.length_le (h : DimsStretchTo ds xs) : ds.length ≤ xs.length := by
  obtain ⟨front, back, rfl, related⟩ := h
  rw [List.length_append, related.length_eq]
  exact Nat.le_add_left ..

/-- Lists of the same length stretch without anything in front. -/
theorem dimsStretchTo_iff_of_length_eq (same : ds.length = xs.length) :
    DimsStretchTo ds xs ↔ List.Forall₂ Dim.StretchesTo ds xs := by
  constructor
  · rintro ⟨front, back, rfl, related⟩
    rw [List.length_append, related.length_eq] at same
    obtain rfl := List.eq_nil_of_length_eq_zero (Nat.right_eq_add.1 same)
    exact related
  · intro related
    exact ⟨[], xs, rfl, related⟩

theorem DimsStretchTo.antisymm (h : DimsStretchTo ds xs) (back : DimsStretchTo xs ds) :
    ds = xs := by
  have same : ds.length = xs.length := Nat.le_antisymm h.length_le back.length_le
  rw [dimsStretchTo_iff_of_length_eq same] at h
  rw [dimsStretchTo_iff_of_length_eq same.symm] at back
  clear same
  induction h with
  | nil => rfl
  | cons first _ ih =>
    obtain ⟨first', back⟩ := List.forall₂_cons.1 back
    rw [first.antisymm first', ih back]

theorem one_cons_dimsStretchTo_iff :
    DimsStretchTo (.fixed 1 :: ds) xs ↔ DimsStretchTo ds xs ∧ ds.length + 1 ≤ xs.length := by
  constructor
  · rintro ⟨front, back, rfl, related⟩
    obtain ⟨x, back, -, rest, rfl⟩ := List.forall₂_cons_left_iff.1 related
    refine ⟨⟨front ++ [x], back, by simp, rest⟩, ?_⟩
    simp only [List.length_append, List.length_cons, rest.length_eq]
    omega
  · rintro ⟨⟨front, back, rfl, related⟩, longer⟩
    -- the last dimension in front is the one that lies over the 1
    rcases List.eq_nil_or_concat front with rfl | ⟨front, x, rfl⟩
    · rw [List.nil_append, related.length_eq] at longer
      exact absurd longer (Nat.not_succ_le_self _)
    · exact ⟨front, x :: back, by simp, .cons x.one_stretchesTo related⟩

/-- Dimensions of 1 that are filled in count for nothing but the rank. -/
theorem padLeft_dimsStretchTo_iff {rank : Nat} (h : ds.length ≤ rank) :
    DimsStretchTo (padLeft rank ds) xs ↔ DimsStretchTo ds xs ∧ rank ≤ xs.length := by
  obtain ⟨k, rfl⟩ := Nat.exists_eq_add_of_le' h
  rw [padLeft, Nat.add_sub_cancel]
  induction k with
  | zero =>
    rw [Nat.zero_add]
    exact (and_iff_left_of_imp DimsStretchTo.length_le).symm
  | succ k ih =>
    rw [List.replicate_succ, List.cons_append, one_cons_dimsStretchTo_iff,
      ih (Nat.le_add_left ..), List.length_append, List.length_replicate, and_assoc]
    apply and_congr_right
    intro
    omega

theorem length_of_broadcastDims {position : Nat} {cs : List Dim} (same : ds.length = es.length)
    (h : broadcastDims position ds es = .ok cs) : cs.length = ds.length := by
  induction ds generalizing es position cs with
  | nil =>
    rw [broadcastDims] at h
    · exact Except.ok.inj h ▸ rfl
    · simp
  | cons d ds ih =>
    obtain ⟨e, es, rfl⟩ := List.exists_cons_of_length_eq_add_one same.symm
    rw [broadcastDims] at h
    split at h
    · cases h
    · split at h
      · cases h
      · next rest =>
        obtain rfl := Except.ok.inj h
        rw [List.length_cons, ih (Nat.succ.inj same) rest, List.length_cons]

theorem exists_broadcastDims_forall₂_iff (position : Nat) (same : ds.length = es.length)
    (long : ds.length = xs.length) :
    (∃ cs, broadcastDims position ds es = .ok cs ∧ List.Forall₂ Dim.StretchesTo cs xs) ↔
      List.Forall₂ Dim.StretchesTo ds xs ∧ List.Forall₂ Dim.StretchesTo es xs := by
  induction ds generalizing es xs position with
  | nil =>
    obtain rfl := List.eq_nil_of_length_eq_zero same.symm
    obtain rfl := List.eq_nil_of_length_eq_zero long.symm
    simp [broadcastDims]
  | cons d ds ih =>
    obtain ⟨e, es, rfl⟩ := List.exists_cons_of_length_eq_add_one same.symm
    obtain ⟨x, xs, rfl⟩ := List.exists_cons_of_length_eq_add_one long.symm
    have first := @Dim.exists_broadcast_iff d e x
    have rest := ih (position + 1) (Nat.succ.inj same) (Nat.succ.inj long)
    rw [List.forall₂_cons, List.forall₂_cons, and_and_and_comm, ← first, ← rest, broadcastDims]
    cases d.broadcast e with
    | error clash => simp
    | ok c => cases broadcastDims (position + 1) ds es <;> simp

theorem exists_broadcastDims_iff (position : Nat) (same : ds.length = es.length) :
    (∃ cs, broadcastDims position ds es = .ok cs ∧ DimsStretchTo cs xs) ↔
      DimsStretchTo ds xs ∧ DimsStretchTo es xs := by
  constructor
  · rintro ⟨cs, common, front, back, rfl, related⟩
    have long : ds.length = back.length :=
      (length_of_broadcastDims same common).symm.trans related.length_eq
    obtain ⟨hds, hes⟩ :=
      (exists_broadcastDims_forall₂_iff position same long).1 ⟨cs, common, related⟩
    exact ⟨⟨front, back, rfl, hds⟩, ⟨front, back, rfl, hes⟩⟩
  · rintro ⟨⟨front, back, rfl, hds⟩, ⟨front', back', split, hes⟩⟩
    obtain ⟨rfl, rfl⟩ := List.append_inj' split
      (hds.length_eq.symm.trans (same.trans hes.length_eq))
    obtain ⟨cs, common, related⟩ :=
      (exists_broadcastDims_forall₂_iff position same hds.length_eq).2 ⟨hds, hes⟩
    exact ⟨cs, common, front, back, rfl, related⟩

/-- The common shape is the least one that both stretch to. -/
theorem exists_broadcast_iff :
    (∃ cs, (ranked ds).broadcast (ranked es) = .ok (ranked cs) ∧ DimsStretchTo cs xs) ↔
      DimsStretchTo ds xs ∧ DimsStretchTo es xs := by
  have left : ds.length ≤ max ds.length es.length := Nat.le_max_left ..
  have right : es.length ≤ max ds.length es.length := Nat.le_max_right ..
  have same : (padLeft (max ds.length es.length) ds).length =
      (padLeft (max ds.length es.length) es).length := by
    simp only [padLeft, List.length_append, List.length_replicate]
    omega
  have padded := @exists_broadcastDims_iff _ _ xs 0 same
  rw [padLeft_dimsStretchTo_iff left, padLeft_dimsStretchTo_iff right] at padded
  have opened : (∃ cs, (ranked ds).broadcast (ranked es) = .ok (ranked cs) ∧ DimsStretchTo cs xs) ↔
      ∃ cs, broadcastDims 0 (padLeft (max ds.length es.length) ds)
        (padLeft (max ds.length es.length) es) = .ok cs ∧ DimsStretchTo cs xs := by
    simp only [broadcast]
    split <;> simp_all
  rw [opened, padded]
  constructor
  · rintro ⟨⟨hds, -⟩, ⟨hes, -⟩⟩
    exact ⟨hds, hes⟩
  · rintro ⟨hds, hes⟩
    have high : max ds.length es.length ≤ xs.length := Nat.max_le.2 ⟨hds.length_le, hes.length_le⟩
    exact ⟨⟨hds, high⟩, ⟨hes, high⟩⟩

/-- The result is the least shape that meets the bounds, and there is none if no shape does. -/
structure Least (x : Except Error Shape) (bounds : List Dim → Prop) : Prop where
  exists_ranked : ∀ s, x = .ok s → ∃ cs, s = ranked cs
  exists_iff : ∀ xs, (∃ cs, x = .ok (ranked cs) ∧ DimsStretchTo cs xs) ↔ bounds xs

variable {x y : Except Error Shape} {bounds bounds' : List Dim → Prop}

theorem least_ok (ds : List Dim) : Least (.ok (ranked ds)) (DimsStretchTo ds) where
  exists_ranked _ h := ⟨ds, (Except.ok.inj h).symm⟩
  exists_iff xs := by simp

theorem Least.broadcast (hx : Least x bounds) (hy : Least y bounds') :
    Least (do (← x).broadcast (← y)) fun xs => bounds xs ∧ bounds' xs where
  exists_ranked s h := by
    obtain ⟨a, ha, h⟩ := bind_eq_ok_iff.1 h
    obtain ⟨b, hb, h⟩ := bind_eq_ok_iff.1 h
    obtain ⟨ds, rfl⟩ := hx.exists_ranked a ha
    obtain ⟨es, rfl⟩ := hy.exists_ranked b hb
    simp only [Shape.broadcast] at h
    split at h
    · exact ⟨_, (Except.ok.inj h).symm⟩
    · cases h
  exists_iff xs := by
    rw [← hx.exists_iff, ← hy.exists_iff]
    simp only [bind_eq_ok_iff]
    constructor
    · rintro ⟨cs, ⟨a, ha, b, hb, common⟩, stretches⟩
      obtain ⟨ds, rfl⟩ := hx.exists_ranked a ha
      obtain ⟨es, rfl⟩ := hy.exists_ranked b hb
      obtain ⟨hds, hes⟩ := exists_broadcast_iff.1 ⟨cs, common, stretches⟩
      exact ⟨⟨ds, ha, hds⟩, ⟨es, hb, hes⟩⟩
    · rintro ⟨⟨ds, ha, hds⟩, ⟨es, hb, hes⟩⟩
      obtain ⟨cs, common, stretches⟩ := exists_broadcast_iff.2 ⟨hds, hes⟩
      exact ⟨cs, ⟨_, ha, _, hb, common⟩, stretches⟩

/-- The bounds determine the result. -/
theorem Least.eq_ok (hx : Least x bounds) (hy : Least y bounds')
    (same : ∀ xs, bounds xs ↔ bounds' xs) (h : x = .ok s) : y = .ok s := by
  obtain ⟨cs, rfl⟩ := hx.exists_ranked s h
  have met := (hx.exists_iff cs).1 ⟨cs, h, dimsStretchTo_refl cs⟩
  obtain ⟨cs', h', below⟩ := (hy.exists_iff cs).2 ((same cs).1 met)
  have met' := (hy.exists_iff cs').1 ⟨cs', h', dimsStretchTo_refl cs'⟩
  obtain ⟨cs'', h'', above⟩ := (hx.exists_iff cs').2 ((same cs').2 met')
  obtain rfl := ranked.inj (Except.ok.inj (h.symm.trans h''))
  rw [h', above.antisymm below]

theorem Least.toOption_eq (hx : Least x bounds) (hy : Least y bounds')
    (same : ∀ xs, bounds xs ↔ bounds' xs) : x.toOption = y.toOption :=
  toOption_eq_of_forall fun _ => ⟨hx.eq_ok hy same, hy.eq_ok hx fun xs => (same xs).symm⟩

end Shape

/-! ### Chains of operations -/

namespace Operator

/-- The types that an operator infers for a node that reads slots of the given types. -/
def infer (operator : Operator) (types : List SlotType) : Except Error (List SlotType) :=
  operator.types
    { node := { op := operator.name, inputs := (List.range types.length).map (⟨·, 0⟩) }
      slots := types.map fun type => .ok (.ofType type) }

/-- Element-wise operations on tensors of known rank, grouped and ordered in some way. -/
inductive Chain where
  /-- An operand, by its element type and its dimensions. -/
  | operand (element : ElementType) (dims : List Dim)
  /-- An operation on the results of two others. -/
  | apply (name : String) (f : BinaryFold) (left right : Chain)

variable {name : String} {f : BinaryFold} {a b : SlotType} {inferred : List SlotType}

theorem infer_binary_eq_ok_iff : (binary name f).infer [a, b] = .ok inferred ↔
    a.element = b.element ∧ ∃ shape, a.shape.broadcast b.shape = .ok shape ∧
      inferred = [⟨a.element, shape⟩] := by
  refine types_binary_eq_ok_iff.trans ?_
  constructor
  · rintro ⟨-, _, _, _, shape, left, right, ha, hb, common, rfl⟩
    obtain rfl := Except.ok.inj left
    obtain rfl := Except.ok.inj ha
    obtain rfl := Except.ok.inj hb
    exact ⟨(Except.ok.inj right).symm, shape, common, rfl⟩
  · rintro ⟨same, shape, common, rfl⟩
    exact ⟨rfl, a.element, a.shape, b.shape, shape, rfl, congrArg Except.ok same.symm, rfl, rfl,
      common, rfl⟩

namespace Chain

/-- The operands, each with its element type and its dimensions. -/
def operands : Chain → List (ElementType × List Dim)
  | operand element dims => [(element, dims)]
  | apply _ _ left right => left.operands ++ right.operands

/-- The type of the result, inferred operation by operation. -/
def types : Chain → Except Error (List SlotType)
  | operand element dims => .ok [⟨element, .ranked dims⟩]
  | apply name f left right => do (binary name f).infer ((← left.types) ++ (← right.types))

/-- The shape of the result, broadcast operation by operation. -/
def shape : Chain → Except Error Shape
  | operand _ dims => .ok (.ranked dims)
  | apply _ _ left right => do (← left.shape).broadcast (← right.shape)

/-- The sum of two results. -/
def add (left right : Chain) : Chain := .apply "Add" ⟨(· + ·), (· + ·), some (· + ·)⟩ left right

variable {c c' : Chain}

theorem least_shape (c : Chain) :
    Shape.Least c.shape fun xs => ∀ operand ∈ c.operands, Shape.DimsStretchTo operand.2 xs := by
  induction c with
  | operand element dims => simpa [operands, shape] using Shape.least_ok dims
  | apply name f left right ihLeft ihRight =>
    simpa [operands, shape, or_imp, forall_and] using ihLeft.broadcast ihRight

/-- A type is inferred if the shapes broadcast and all operands have the same element type. -/
theorem types_eq_ok_iff : c.types = .ok inferred ↔ ∃ element shape,
    (∀ operand ∈ c.operands, operand.1 = element) ∧ c.shape = .ok shape ∧
      inferred = [⟨element, shape⟩] := by
  induction c generalizing inferred with
  | operand element dims => simp [types, shape, operands, eq_comm]
  | apply name f left right ihLeft ihRight =>
    simp only [types, shape, operands, bind_eq_ok_iff, ihLeft, ihRight, List.mem_append]
    constructor
    · rintro ⟨_, ⟨element, s, hleft, hs, rfl⟩, _, ⟨_, t, hright, ht, rfl⟩, h⟩
      obtain ⟨rfl, r, common, rfl⟩ := infer_binary_eq_ok_iff.1 h
      exact ⟨element, r, fun operand h => h.elim (hleft operand) (hright operand),
        ⟨s, hs, t, ht, common⟩, rfl⟩
    · rintro ⟨element, r, same, ⟨s, hs, t, ht, common⟩, rfl⟩
      exact ⟨_, ⟨element, s, fun operand h => same operand (.inl h), hs, rfl⟩,
        _, ⟨element, t, fun operand h => same operand (.inr h), ht, rfl⟩,
        infer_binary_eq_ok_iff.2 ⟨rfl, r, common, rfl⟩⟩

theorem types_eq_ok_of_operands (same : ∀ operand, operand ∈ c.operands ↔ operand ∈ c'.operands)
    (h : c.types = .ok inferred) : c'.types = .ok inferred := by
  obtain ⟨element, shape, elements, hshape, rfl⟩ := types_eq_ok_iff.1 h
  have elements' (operand) (h : operand ∈ c'.operands) : operand.1 = element :=
    elements operand ((same operand).2 h)
  have hshape' := c.least_shape.eq_ok c'.least_shape (fun xs => by simp only [same]) hshape
  exact types_eq_ok_iff.2 ⟨element, shape, elements', hshape', rfl⟩

end Chain

end Operator

namespace Shape

open Operator (Chain)

/-- Broadcasting shapes of known rank is commutative and associative, failures included. Whatever
the order and the grouping of element-wise operations on the same operands, they have the same type
or none. -/
theorem broadcast_regroup {c c' : Chain}
    (same : ∀ operand, operand ∈ c.operands ↔ operand ∈ c'.operands) :
    (∀ ds es, ((ranked ds).broadcast (ranked es)).toOption =
      ((ranked es).broadcast (ranked ds)).toOption) ∧
    (∀ ds es fs, (do (← (ranked ds).broadcast (ranked es)).broadcast (ranked fs)).toOption =
      (do (ranked ds).broadcast (← (ranked es).broadcast (ranked fs))).toOption) ∧
    c.types.toOption = c'.types.toOption := by
  have least (ds es : List Dim) := (least_ok ds).broadcast (least_ok es)
  refine ⟨?_, ?_, ?_⟩
  · intro ds es
    exact (least ds es).toOption_eq (least es ds) fun _ => and_comm
  · intro ds es fs
    exact ((least ds es).broadcast (least_ok fs)).toOption_eq
      ((least_ok ds).broadcast (least es fs)) fun _ => and_assoc
  · exact toOption_eq_of_forall fun inferred =>
      ⟨Chain.types_eq_ok_of_operands same,
        Chain.types_eq_ok_of_operands fun operand => (same operand).symm⟩

/-- A column and a row, which are added first, and a tensor of rank 3. -/
def columnFirst : Chain :=
  .add (.add (.operand .f32 [.dynamic, .fixed 1]) (.operand .f32 [.fixed 3]))
    (.operand .f32 [.fixed 2, .fixed 1, .fixed 3])

/-- The same operands in the opposite order, the row and the column still being added first. -/
def columnLast : Chain :=
  .add (.operand .f32 [.fixed 2, .fixed 1, .fixed 3])
    (.add (.operand .f32 [.fixed 3]) (.operand .f32 [.dynamic, .fixed 1]))

theorem broadcast_regroup_columnLast :
    (∀ operand, operand ∈ columnFirst.operands ↔ operand ∈ columnLast.operands) ∧
      columnFirst.types.toOption = columnLast.types.toOption ∧
      columnLast.types = .ok [⟨.f32, ranked [.fixed 2, .dynamic, .fixed 3]⟩] := by
  have same (operand : ElementType × List Dim) :
      operand ∈ columnFirst.operands ↔ operand ∈ columnLast.operands := by
    simp only [columnFirst, columnLast, Chain.add, Chain.operands, List.mem_append,
      List.mem_singleton]
    tauto
  exact ⟨same, (broadcast_regroup same).2.2, rfl⟩

end Shape

end TensorGraph

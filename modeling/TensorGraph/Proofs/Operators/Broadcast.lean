import TensorGraph.Proofs.Operators.Monotone

/-!
# Broadcasting shapes that are known in part

What broadcasting fixed extents means is said place by place, counted from the right
(`Shape.Stretch`). Two shapes that are known in part have as common extents what their instances
have. Broadcasting the shapes gives exactly the shape whose instances these are
(`Shape.meets_iff`), so that it fails only if there are none, and no shape that stands for all of
them says more (`Shape.broadcast_best`).
-/

namespace TensorGraph

/-! ### Dimensions -/

namespace Dim

/-- Two extents that lie over each other have a common one: they are equal, or one of them is 1 and
is stretched to the other. -/
def Common (m n k : Nat) : Prop := (m = n ∨ m = 1 ∨ n = 1) ∧ k = if m = 1 then n else m

/-- An extent that two dimensions may have in common. -/
def Meets (d e : Dim) (k : Nat) : Prop :=
  ∃ m n, d ≤ fixed m ∧ e ≤ fixed n ∧ Common m n k

variable {d e : Dim} {m n k : Nat}

theorem common_self (n : Nat) : Common n n n := by simp [Common]

theorem common_one_right (m : Nat) : Common m 1 m := by
  by_cases one : m = 1 <;> simp [Common, one]

/-- What an extent other than 1 meets is stretched to it. -/
theorem Common.eq_of_ne_one (h : Common m n k) (other : m ≠ 1) : k = m := by
  rw [h.2, if_neg other]

theorem Common.symm (h : Common m n k) : Common n m k := by
  obtain ⟨fit, rfl⟩ := h
  unfold Common
  split_ifs <;> omega

theorem meets_comm : d.Meets e k ↔ e.Meets d k :=
  ⟨fun ⟨m, n, hm, hn, common⟩ => ⟨n, m, hn, hm, common.symm⟩,
    fun ⟨m, n, hm, hn, common⟩ => ⟨n, m, hn, hm, common.symm⟩⟩

theorem broadcast_fixed_eq_ok_iff {c : Dim} :
    (fixed m).broadcast (fixed n) = .ok c ↔ ∃ k, Common m n k ∧ c = fixed k := by
  simp only [broadcast, Common]
  split_ifs with oneM oneN same
  · simp [oneM, eq_comm]
  · simp [oneN, eq_comm]
  · simp [same, eq_comm]
  · simp [oneM, oneN, same]

/-- A fixed dimension meets a dynamic one with its own extent, or with any if that is 1. -/
theorem fixed_meets_dynamic_iff : (fixed n).Meets dynamic k ↔ n = 1 ∨ k = n := by
  constructor
  · rintro ⟨_, m, le, -, common⟩
    obtain rfl := fixed.inj (fixed_le_iff.1 le)
    exact or_iff_not_imp_left.2 common.eq_of_ne_one
  · rintro (rfl | rfl)
    · exact ⟨1, k, le_refl _, dynamic_le _, (common_one_right k).symm⟩
    · exact ⟨k, k, le_refl _, dynamic_le _, common_self k⟩

/-- The extents that two dimensions may have in common are those that their common dimension may
have. -/
theorem meets_iff : d.Meets e k ↔ ∃ c, d.broadcast e = .ok c ∧ c ≤ fixed k := by
  have opened (n : Nat) : (∃ c, (Except.ok (if n = 1 then dynamic else fixed n) :
      Except (Nat × Nat) Dim) = .ok c ∧ c ≤ fixed k) ↔ n = 1 ∨ k = n := by
    split
    · next one => simp [one, dynamic_le]
    · next other => simp [other]
  cases d with
  | dynamic =>
    cases e with
    | dynamic =>
      exact iff_of_true ⟨k, k, dynamic_le _, dynamic_le _, common_self k⟩
        ⟨dynamic, rfl, dynamic_le _⟩
    | fixed n => exact meets_comm.trans (fixed_meets_dynamic_iff.trans (opened n).symm)
  | fixed m =>
    cases e with
    | dynamic => exact fixed_meets_dynamic_iff.trans (opened m).symm
    | fixed n => simp [Meets, broadcast_fixed_eq_ok_iff]

/-- A dimension that stands for every extent of another one says no more than that. -/
theorem le_of_forall_fixed (h : ∀ k, d ≤ fixed k → e ≤ fixed k) : e ≤ d := by
  cases d with
  | fixed n => exact h n (le_refl _)
  | dynamic =>
    cases e with
    | dynamic => exact le_refl _
    | fixed n => simpa using h (n + 1) (dynamic_le _)

theorem exists_le_fixed (d : Dim) : ∃ k, d ≤ fixed k := by
  cases d with
  | dynamic => exact ⟨1, dynamic_le _⟩
  | fixed n => exact ⟨n, le_refl _⟩

end Dim

/-! ### Extents -/

namespace Shape

/-- The extent at place `i` from the right. In front of the first extent there are ones. -/
def fromRight (extents : List Nat) (i : Nat) : Nat := extents.reverse[i]?.getD 1

/-- The common extents of two lists that are laid over each other from the right. -/
structure Stretch (a b common : List Nat) : Prop where
  rank : common.length = max a.length b.length
  extent : ∀ i, Dim.Common (fromRight a i) (fromRight b i) (fromRight common i)

/-- Extents that two shapes may have in common: those of their instances. -/
def Meets (s s' : Shape) (common : List Nat) : Prop :=
  ∃ a b, s ≤ ofExtents a ∧ s' ≤ ofExtents b ∧ Stretch a b common

variable {a b common : List Nat} {ds es cs : List Dim} {s s' : Shape}

theorem fromRight_of_lt {extents : List Nat} {i : Nat} (h : i < extents.length) :
    fromRight extents i = extents[extents.length - 1 - i] := by
  simp [fromRight, h]

theorem fromRight_of_le {extents : List Nat} {i : Nat} (h : extents.length ≤ i) :
    fromRight extents i = 1 := by
  simp [fromRight, h]

theorem fromRight_pad (rank : Nat) (extents : List Nat) (i : Nat) :
    fromRight (pad rank extents) i = fromRight extents i := by
  rcases Nat.lt_or_ge i extents.length with lt | le
  · simp [fromRight, pad, List.getElem?_append_left, lt]
  · rw [fromRight_of_le le, fromRight, pad, List.reverse_append,
      List.getElem?_append_right (by simpa using le), List.reverse_replicate,
      List.getElem?_replicate]
    split <;> rfl

/-- Extents that are filled up to the same rank are common place by place. -/
theorem stretch_iff {rank : Nat} (hrank : rank = max a.length b.length) :
    Stretch a b common ↔ List.Forall₂ (fun mn k => Dim.Common mn.1 mn.2 k)
      ((pad rank a).zip (pad rank b)) common := by
  have lengthA : (pad rank a).length = rank := length_pad (by omega)
  have lengthB : (pad rank b).length = rank := length_pad (by omega)
  have lengthZip : ((pad rank a).zip (pad rank b)).length = rank := by
    rw [List.length_zip, lengthA, lengthB, Nat.min_self]
  rw [List.forall₂_iff_get]
  constructor
  · rintro ⟨length, extent⟩
    obtain rfl : rank = common.length := hrank.trans length.symm
    refine ⟨lengthZip, fun i hi hi' => ?_⟩
    have here := extent (common.length - 1 - i)
    rw [← fromRight_pad common.length a, ← fromRight_pad common.length b,
      fromRight_of_lt (by omega), fromRight_of_lt (by omega), fromRight_of_lt (by omega)] at here
    have back : common.length - 1 - (common.length - 1 - i) = i := by omega
    simpa only [lengthA, lengthB, back, List.get_eq_getElem, List.getElem_zip] using here
  · rintro ⟨length, extent⟩
    rw [lengthZip] at length
    refine ⟨length.symm.trans hrank, fun i => ?_⟩
    rw [← fromRight_pad rank a, ← fromRight_pad rank b]
    rcases Nat.lt_or_ge i rank with lt | le
    · rw [fromRight_of_lt (by omega), fromRight_of_lt (by omega), fromRight_of_lt (by omega)]
      have here := extent (rank - 1 - i) (by omega) (by omega)
      simpa [lengthA, lengthB, ← length] using here
    · rw [fromRight_of_le (by omega), fromRight_of_le (by omega), fromRight_of_le (by omega)]
      exact Dim.common_self 1

/-! ### Instances -/

theorem ranked_le_ofExtents_iff :
    ranked ds ≤ ofExtents a ↔ List.Forall₂ (fun d m => d ≤ .fixed m) ds a := by
  rw [ofExtents, ranked_le_ranked_iff, List.forall₂_map_right_iff]

/-- The instances of dimensions that are filled up are those of the dimensions, filled up. -/
theorem forall₂_padLeft_iff {rank : Nat} {ms : List Nat} :
    List.Forall₂ (fun d m => d ≤ Dim.fixed m) (padLeft rank ds) ms ↔
      ∃ a, ranked ds ≤ ofExtents a ∧ ms = pad rank a := by
  simp only [ranked_le_ofExtents_iff]
  constructor
  · intro h
    have split (k : Nat) {ms : List Nat}
        (h : List.Forall₂ (fun d m => d ≤ Dim.fixed m) (List.replicate k (.fixed 1) ++ ds) ms) :
        ∃ a, List.Forall₂ (fun d m => d ≤ Dim.fixed m) ds a ∧ ms = List.replicate k 1 ++ a := by
      induction k generalizing ms with
      | zero => exact ⟨ms, h, rfl⟩
      | succ k ih =>
        obtain ⟨m, ms, one, rest, rfl⟩ := List.forall₂_cons_left_iff.1 h
        obtain rfl := Dim.fixed.inj (Dim.fixed_le_iff.1 one)
        obtain ⟨a, ha, rfl⟩ := ih rest
        exact ⟨a, ha, rfl⟩
    obtain ⟨a, ha, rfl⟩ := split _ h
    exact ⟨a, ha, by rw [pad, ha.length_eq]⟩
  · rintro ⟨a, ha, rfl⟩
    have filled := padLeft_le rank (ranked_le_ranked_iff.1 (ranked_le_ofExtents_iff.2 ha))
    rwa [padLeft_map_fixed, List.forall₂_map_right_iff] at filled

/-- The common extents of instances, place by place. -/
theorem ranked_meets_iff {rank : Nat} (hrank : rank = max ds.length es.length) :
    (ranked ds).Meets (ranked es) common ↔
      List.Forall₂ (fun de k => Dim.Meets de.1 de.2 k)
        ((padLeft rank ds).zip (padLeft rank es)) common := by
  have same : (padLeft rank ds).length = (padLeft rank es).length := by
    simp only [padLeft, List.length_append, List.length_replicate]
    omega
  refine Iff.trans ?_ (forall₂_zip_iff (S := fun d m => d ≤ Dim.fixed m)
    (T := fun e n => e ≤ Dim.fixed n) (Q := Dim.Common) same).symm
  simp only [forall₂_padLeft_iff]
  constructor
  · rintro ⟨a, b, ha, hb, stretch⟩
    have lengthA := (ranked_le_ofExtents_iff.1 ha).length_eq
    have lengthB := (ranked_le_ofExtents_iff.1 hb).length_eq
    exact ⟨_, _, ⟨a, ha, rfl⟩, ⟨b, hb, rfl⟩, (stretch_iff (lengthA ▸ lengthB ▸ hrank)).1 stretch⟩
  · rintro ⟨_, _, ⟨a, ha, rfl⟩, ⟨b, hb, rfl⟩, stretch⟩
    have lengthA := (ranked_le_ofExtents_iff.1 ha).length_eq
    have lengthB := (ranked_le_ofExtents_iff.1 hb).length_eq
    exact ⟨a, b, ha, hb, (stretch_iff (lengthA ▸ lengthB ▸ hrank)).2 stretch⟩

theorem broadcastDims_iff (position : Nat) :
    (∃ cs, broadcastDims position ds es = .ok cs ∧
        List.Forall₂ (fun c k => c ≤ Dim.fixed k) cs common) ↔
      List.Forall₂ (fun de k => Dim.Meets de.1 de.2 k) (ds.zip es) common := by
  simp only [Dim.meets_iff]
  induction ds generalizing position es common with
  | nil => simp [broadcastDims]
  | cons d ds ih =>
    cases es with
    | nil => simp [broadcastDims]
    | cons e es =>
      rw [List.zip_cons_cons, List.forall₂_cons_left_iff, broadcastDims]
      cases first : d.broadcast e with
      | error clash => simp
      | ok c =>
        simp only [← ih (position + 1), Except.ok.injEq, exists_eq_left']
        cases broadcastDims (position + 1) ds es with
        | error clash => simp
        | ok cs => simp [List.forall₂_cons_left_iff]

/-- The extents that two shapes of known rank may have in common are those of the shape that
broadcasting them gives. -/
theorem meets_iff : (ranked ds).Meets (ranked es) common ↔
    ∃ c, (ranked ds).broadcast (ranked es) = .ok c ∧ c ≤ ofExtents common := by
  rw [ranked_meets_iff rfl, ← broadcastDims_iff 0, broadcast]
  cases broadcastDims 0 (padLeft (max ds.length es.length) ds)
      (padLeft (max ds.length es.length) es) with
  | error clash => simp
  | ok cs => simp [ranked_le_ofExtents_iff]

/-! ### Best shapes -/

/-- Every shape has instances. -/
theorem exists_le_ofExtents (s : Shape) : ∃ extents, s ≤ ofExtents extents := by
  cases s with
  | unranked => exact ⟨[], unranked_le _⟩
  | ranked ds =>
    simp only [ranked_le_ofExtents_iff]
    induction ds with
    | nil => exact ⟨[], .nil⟩
    | cons d ds ih =>
      obtain ⟨k, hk⟩ := d.exists_le_fixed
      obtain ⟨extents, h⟩ := ih
      exact ⟨k :: extents, .cons hk h⟩

/-- A shape that stands for every instance of another one says no more than that. -/
theorem le_of_forall_ofExtents (h : ∀ extents, s' ≤ ofExtents extents → s ≤ ofExtents extents) :
    s ≤ s' := by
  cases s with
  | unranked => exact unranked_le _
  | ranked ds =>
    simp only [ranked_le_ofExtents_iff] at h
    cases s' with
    | unranked =>
      -- no rank is that of all instances
      have none := (h [] (unranked_le _)).length_eq
      have one := (h [1] (unranked_le _)).length_eq
      simp [none] at one
    | ranked cs =>
      rw [ranked_le_ranked_iff]
      simp only [ranked_le_ofExtents_iff] at h
      induction cs generalizing ds with
      | nil => simpa using h [] .nil
      | cons c cs ih =>
        obtain ⟨k, hk⟩ := c.exists_le_fixed
        obtain ⟨extents, hcs⟩ := exists_le_ofExtents (ranked cs)
        rw [ranked_le_ofExtents_iff] at hcs
        obtain ⟨d, ds, -, -, rfl⟩ := List.forall₂_cons_right_iff.1 (h _ (.cons hk hcs))
        -- one instance of the others does for every extent of the first dimension, and one extent
        -- of the first dimension for every instance of the others
        refine .cons (Dim.le_of_forall_fixed fun k' hk' => ?_) (ih ds fun extents' hcs' => ?_)
        · exact (List.forall₂_cons.1 (h _ (.cons hk' hcs))).1
        · exact (List.forall₂_cons.1 (h _ (.cons hk hcs'))).2

/-- The best known shape of all extents that two shapes may have in common: it stands for each of
them, and no shape that does so says more. -/
structure Best (s s' c : Shape) : Prop where
  stands : ∀ common, s.Meets s' common → c ≤ ofExtents common
  best : ∀ c', (∀ common, s.Meets s' common → c' ≤ ofExtents common) → c' ≤ c

theorem best_of_broadcast {c : Shape} (h : (ranked ds).broadcast (ranked es) = .ok c) :
    Best (ranked ds) (ranked es) c := by
  have meets (common : List Nat) :
      (ranked ds).Meets (ranked es) common ↔ c ≤ ofExtents common := by
    rw [meets_iff, h]
    exact ⟨fun ⟨_, same, le⟩ => Except.ok.inj same ▸ le, fun le => ⟨c, rfl, le⟩⟩
  exact ⟨fun common => (meets common).1,
    fun c' stands => le_of_forall_ofExtents fun extents le => stands extents ((meets extents).2 le)⟩

/-! ### Shapes that are fixed -/

theorem ofExtents_le_iff : ofExtents a ≤ ofExtents b ↔ b = a := by
  constructor
  · intro le
    have same := congrArg extents? (eq_of_extents? (extents?_ofExtents a) le)
    simpa using same
  · rintro rfl
    exact le_refl _

theorem ofExtents_meets_iff :
    (ofExtents a).Meets (ofExtents b) common ↔ Stretch a b common := by
  simp [Meets, ofExtents_le_iff]

theorem broadcastExtents_of_broadcast
    (h : (ofExtents a).broadcast (ofExtents b) = .ok (ofExtents common)) :
    broadcastExtents a b = .ok common := by
  rw [broadcastExtents, h]
  simp only [extents?_ofExtents]

theorem broadcastExtents_eq_ok_iff : broadcastExtents a b = .ok common ↔ Stretch a b common := by
  rw [← ofExtents_meets_iff, ofExtents, ofExtents, meets_iff]
  constructor
  · intro h
    exact ⟨_, (broadcastExtents_eq_ok h).1, le_refl _⟩
  · rintro ⟨c, h, le⟩
    obtain ⟨extents, rfl, -⟩ := broadcast_ofExtents h
    obtain rfl := ofExtents_le_iff.1 le
    exact broadcastExtents_of_broadcast h

/-- Shapes of known rank can be broadcast if some of their instances can, and the common shape is
the best known one of all that the instances may have in common. Extents that are fixed have the
common extents that they are stretched to. -/
theorem broadcast_best (ds es : List Dim) :
    ((∃ e, (ranked ds).broadcast (ranked es) = .error e) ↔
        ∀ common, ¬(ranked ds).Meets (ranked es) common) ∧
      (∀ c, (ranked ds).broadcast (ranked es) = .ok c → Best (ranked ds) (ranked es) c) ∧
      ∀ a b common, broadcastExtents a b = .ok common ↔ Stretch a b common := by
  refine ⟨?_, fun _ => best_of_broadcast, fun _ _ _ => broadcastExtents_eq_ok_iff⟩
  simp only [meets_iff, not_exists, not_and]
  constructor
  · rintro ⟨e, failed⟩ common c h
    cases failed.symm.trans h
  · intro none
    cases h : (ranked ds).broadcast (ranked es) with
    | error e => exact ⟨e, rfl⟩
    | ok c =>
      obtain ⟨extents, le⟩ := exists_le_ofExtents c
      exact absurd le (none extents c h)

/-- A dynamic extent that meets 5 is 1 or 5, one that meets 1 stays open. -/
example : (ranked [.dynamic, .dynamic]).broadcast (ranked [.fixed 5, .fixed 1]) =
    .ok (ranked [.fixed 5, .dynamic]) := rfl

end Shape

end TensorGraph

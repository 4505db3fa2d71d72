import TensorGraph.Proofs.Batch.Evaluation
import TensorGraph.Proofs.Operators.Inversion

/-!
# Targets that are relaxed twice

A relaxed target is folded like any other, so that a reshape may be relaxed again, with a target
that has been relaxed before. If both ratios scale the batch that the data have now alike, the
second target is the first one, whether their values are known or not
(`Relaxation.Chain.Stands.slot_target_eq`).
-/

namespace TensorGraph.Relaxation

variable {g : Graph} {c c' : Candidate} {stem stem' : String} {chain chain' : Chain}
  {data target slot : Slot} {t : Tensor} {n : Nat} {dims : List Nat} {joined : TensorData}

/-- The nodes that compute the target are in their places and in step. -/
def Chain.Stands (chain : Chain) (g : Graph) (c : Candidate) (stem : String) : Prop :=
  ∀ planned ∈ c.plan stem chain, g.Executes planned.1 planned.2

theorem Chain.Stands.works (h : chain.Stands g c stem) : chain.Works g c stem :=
  fun planned hplanned => (h planned hplanned).computes

/-- The first entry is known only if the shape of the data is static and has a dimension. -/
theorem Chain.Stands.gives_batch (h : chain.Stands g c stem) (hdata : g.slot c.data = .ok data) :
    g.Gives (output chain.batch) ⟨.i64, .ofExtents [1]⟩
      (∃ n dims, data.shape = .ofExtents (n :: dims)) := by
  simp only [Chain.Stands, Candidate.plan, List.forall_mem_cons] at h
  obtain ⟨shapeOf, first, axis, gather, -⟩ := h
  obtain ⟨slot, dim, hslot, type, static⟩ := shapeOf.exists_shapeOf rfl rfl rfl hdata
  obtain ⟨batch, hbatch, type', picked⟩ := gather.exists_gather rfl rfl hslot
    first.slot_constant rfl axis.slot_constant
  have element : slot.element = .i64 := by rw [type]
  have shape : slot.shape = .ranked [dim] := by rw [type]
  refine ⟨batch, hbatch, ?_, fun t value => ?_⟩
  · rw [type', element, shape]
    rfl
  · obtain ⟨whole, positions, _, known, within, -⟩ := picked t value
    obtain ⟨dims, extents⟩ := static whole known
    cases dims with
    | cons n dims => exact ⟨n, dims, extents⟩
    | nil =>
      -- there is no first extent that could have been picked
      obtain ⟨slot', hslot', shows⟩ := shapeOf.computes.shows_shapeOf rfl rfl rfl hdata extents
      obtain rfl := Except.ok.inj (hslot.symm.trans hslot')
      obtain rfl := Option.some.inj (known.symm.trans (shows.value_eq rfl))
      cases within

/-- So is the scaled batch. -/
theorem Chain.Stands.exists_modified (h : chain.Stands g c stem)
    (hdata : g.slot c.data = .ok data) :
    ∃ slot, g.slot (output chain.modified) = .ok slot ∧
      slot.toSlotType = ⟨c.element, .ofExtents [1]⟩ ∧ ∀ t, slot.value = some t →
        t.elementType = c.element ∧ ∃ n dims, data.shape = .ofExtents (n :: dims) := by
  have batch := h.gives_batch hdata
  simp only [Chain.Stands, Candidate.plan, List.forall_mem_cons] at h
  obtain ⟨-, -, -, -, convert, outBatch, multiply, inBatch, divide, ceiling, convert', -⟩ := h
  have number := convert.gives_convert rfl rfl rfl batch
  have scaled := multiply.gives_binary (f := ⟨(· * ·), (· * ·), some (· * ·)⟩) rfl rfl number
    outBatch.slot_constant rfl
  have ratio := divide.gives_binary (f := ⟨(· / ·), (· / ·), none⟩) rfl rfl scaled
    inBatch.slot_constant rfl
  have rounded := ceiling.gives_unary (f := ⟨.ceil, .ceil⟩) rfl rfl ratio
  obtain ⟨slot, hslot, type, static⟩ := convert'.gives_convert rfl rfl rfl rounded
  obtain ⟨read, hread, -⟩ := rounded
  exact ⟨slot, hslot, type, fun t value =>
    ⟨convert'.elementType_of_convert rfl rfl rfl hread hslot value, static t value⟩⟩

theorem Candidate.extents_indices (c : Candidate) :
    c.indices.shape = .ofExtents [c.length - 1] := by
  simp [Candidate.indices, Tensor.ofInts, Tensor.ofData, Tensor.shape, TensorData.length]

theorem Candidate.exists_integers?_indices (c : Candidate) :
    ∃ is, c.indices.integers? = some is ∧ is.length = c.length - 1 :=
  ⟨_, rfl, by simp⟩

/-- The other entries of the target are known only if the target is. -/
theorem Chain.Stands.exists_rest (h : chain.Stands g c stem)
    (htarget : g.slot c.target = .ok target) :
    ∃ slot, g.slot (output chain.rest) = .ok slot ∧
      slot.toSlotType = ⟨target.element, target.shape.withDim 0 (.fixed (c.length - 1))⟩ ∧
        ∀ t, slot.value = some t → t.length = c.length - 1 ∧ target.value.isSome := by
  simp only [Chain.Stands, Candidate.plan, List.forall_mem_cons] at h
  obtain ⟨-, -, axis, -, -, -, -, -, -, -, -, indices, gather, -⟩ := h
  obtain ⟨is, integers, length⟩ := c.exists_integers?_indices
  have hindices := indices.slot_constant
  rw [c.extents_indices] at hindices
  obtain ⟨slot, hslot, type, picked⟩ :=
    gather.exists_gather rfl rfl htarget hindices integers axis.slot_constant
  refine ⟨slot, hslot, type, fun t value => ?_⟩
  obtain ⟨whole, _, elements, known, -, count, rfl⟩ := picked t value
  exact ⟨count.trans length, by simp [known]⟩

/-- The new target is a list, if the rank of the old one is known. -/
theorem Chain.Stands.exists_target (h : chain.Stands g c stem) (hdata : g.slot c.data = .ok data)
    (htarget : g.slot c.target = .ok target) :
    ∃ slot, g.slot (output chain.target) = .ok slot ∧ slot.element = c.element ∧
      (target.shape = .unranked ∧ slot.shape = .unranked ∨
        (∃ dim, target.shape = .ranked [dim]) ∧ slot.shape = .ofExtents [1 + (c.length - 1)]) := by
  obtain ⟨modified, hmodified, type, -⟩ := h.exists_modified hdata
  obtain ⟨others, hothers, type', -⟩ := h.exists_rest htarget
  simp only [Chain.Stands, Candidate.plan, List.forall_mem_cons] at h
  obtain ⟨-, -, -, -, -, -, -, -, -, -, -, -, -, concat, -⟩ := h
  obtain ⟨-, slot, hslot, same, shapes, -⟩ :=
    concat.exists_concat rfl rfl rfl hmodified hothers (by rw [type])
  refine ⟨slot, hslot, same.trans (by rw [type]), ?_⟩
  have shape : others.shape = target.shape.withDim 0 (.fixed (c.length - 1)) := by rw [type']
  cases before : target.shape with
  | unranked =>
    rw [before] at shape
    rcases shapes with ⟨-, unranked⟩ | ⟨_, _, ranked, -⟩
    · exact .inl ⟨rfl, unranked⟩
    · cases shape.symm.trans ranked
  | ranked dims =>
    rw [before] at shape
    rcases shapes with ⟨unranked, -⟩ | ⟨dim, sum, ranked, hsum, result⟩
    · cases shape.symm.trans unranked
    · have list := Shape.ranked.inj (shape.symm.trans ranked)
      cases dims with
      | nil => cases list
      | cons first later =>
        obtain ⟨rfl, rfl⟩ := List.cons.inj list
        obtain rfl := Option.some.inj hsum
        exact .inr ⟨⟨first, rfl⟩, result⟩

/-- Its value, if known, is that of the scaled batch and of the other entries, joined. -/
theorem Chain.Stands.exists_joined (h : chain.Stands g c stem) (hdata : g.slot c.data = .ok data)
    (htarget : g.slot c.target = .ok target) (hslot : g.slot (output chain.target) = .ok slot)
    (value : slot.value = some t) :
    target.value.isSome ∧ (∃ n dims, data.shape = .ofExtents (n :: dims)) ∧
      ∃ modified first rest joined, g.slot (output chain.modified) = .ok modified ∧
        modified.value = some first ∧ first.elementType = c.element ∧
          rest.length = c.length - 1 ∧ Concat.elements? [first, rest] = .ok (some joined) ∧
            t = .ofData joined := by
  obtain ⟨modified, hmodified, type, static⟩ := h.exists_modified hdata
  obtain ⟨others, hothers, -, known⟩ := h.exists_rest htarget
  simp only [Chain.Stands, Candidate.plan, List.forall_mem_cons] at h
  obtain ⟨-, -, -, -, -, -, -, -, -, -, -, -, -, concat, -⟩ := h
  obtain ⟨-, slot', hslot', -, -, values⟩ :=
    concat.exists_concat rfl rfl rfl hmodified hothers (by rw [type])
  obtain rfl := Except.ok.inj (hslot.symm.trans hslot')
  obtain ⟨first, rest, joined, hfirst, hrest, elements, rfl⟩ := values t value
  obtain ⟨element, static⟩ := static first hfirst
  obtain ⟨count, before⟩ := known rest hrest
  exact ⟨before, static, modified, first, rest, joined, hmodified, hfirst, element, count,
    elements, rfl⟩

/-- A list of integers that results from a relaxation has one of the two types whose lists are
folded. -/
theorem Chain.Stands.element_eq (h : chain.Stands g c stem) (hdata : g.slot c.data = .ok data)
    (htarget : g.slot c.target = .ok target) (hslot : g.slot (output chain.target) = .ok slot)
    (value : slot.value = some t) {xs : List Int} (integers : t.integers? = some xs) :
    c.element = .i64 ∨ c.element = .i32 := by
  obtain ⟨-, -, _, first, rest, joined, -, -, element, -, elements, rfl⟩ :=
    h.exists_joined hdata htarget hslot value
  rw [← element]
  obtain ⟨first, extents⟩ := first
  cases first with
  | i64 | i32 => simp [Tensor.elementType, TensorData.elementType]
  | u8 | boolean => cases Except.ok.inj elements
  | f64 | f32 =>
    obtain ⟨xs, -, elements⟩ := bind_eq_ok_iff.1 elements
    obtain rfl := Option.some.inj (Except.ok.inj elements)
    cases integers

/-- The first entry of a relaxed target whose value is known is the scaled batch. -/
theorem Chain.Stands.withHead_eq (h : chain.Stands g c stem) (hdata : g.slot c.data = .ok data)
    (shape : data.shape = .ofExtents (n :: dims)) (hpos : 0 < c.inBatch)
    (htarget : g.slot c.target = .ok target) (hslot : g.slot (output chain.target) = .ok slot)
    (value : slot.value = some t) (integer : c.element = .i64 ∨ c.element = .i32) :
    ∃ p : TensorData, t = .ofData p ∧ p.elementType = c.element ∧ p.length = 1 + (c.length - 1) ∧
      p.withHead (c.targetBatch n) = p := by
  obtain ⟨-, -, modified, first, rest, joined, hmodified, hfirst, -, count, elements, rfl⟩ :=
    h.exists_joined hdata htarget hslot value
  obtain ⟨length, same⟩ := Operator.elements?_concat elements
  have rounded := h.works.shows_rounded hdata shape hpos
  have number : c.element ≠ .f64 := by
    rcases integer with e | e <;> simp [e]
  have firstEq {head : TensorData} {ys : List Int} (element : head.elementType = c.element)
      (integers : head.integers? = some ys)
      (converted : ∀ y : Binary64, y.plain = (c.scaledBatch (Int64.ofInt n).toInt).plain →
        TensorData.ofBinary64? [y] head.elementType = some head) : first = ⟨head, [1]⟩ := by
    obtain ⟨slot', hslot', shows⟩ := h.works.shows_modified rounded element number converted
    obtain rfl := Except.ok.inj (hmodified.symm.trans hslot')
    exact Option.some.inj (hfirst.symm.trans (shows.value_eq integers))
  have total : joined.length = first.length + (c.length - 1) := by
    rw [length, ← count]
    rfl
  rcases integer with e | e
  · obtain rfl : first = ⟨.i64 [c.targetBatch n], [1]⟩ :=
      firstEq (by rw [e]; rfl) rfl fun y plain => by
        rw [Candidate.targetBatch, ← Binary.toInt64_eq plain]
        rfl
    obtain ⟨xs, appended, joins⟩ := bind_eq_ok_iff.1 elements
    obtain rfl := Option.some.inj (Except.ok.inj joins)
    obtain ⟨later, -, appended⟩ := bind_eq_ok_iff.1 appended
    obtain rfl := Except.ok.inj appended
    exact ⟨_, rfl, e.symm, total, rfl⟩
  · obtain rfl : first = ⟨.i32 [(c.scaledBatch (Int64.ofInt n).toInt).toInt32], [1]⟩ :=
      firstEq (by rw [e]; rfl) rfl fun y plain => by
        rw [← Binary.toInt32_eq plain]
        rfl
    obtain ⟨xs, appended, joins⟩ := bind_eq_ok_iff.1 elements
    obtain rfl := Option.some.inj (Except.ok.inj joins)
    obtain ⟨later, -, appended⟩ := bind_eq_ok_iff.1 appended
    obtain rfl := Except.ok.inj appended
    refine ⟨_, rfl, e.symm, total, ?_⟩
    rw [TensorData.withHead, Candidate.targetBatch, Binary.clampToInt32_toInt64]
    rfl

/-- A target that is relaxed a second time stays as it was, if both ratios scale the batch that the
data have now alike. -/
theorem Chain.Stands.slot_target_eq (h : chain.Stands g c stem) (again : chain'.Stands g c' stem')
    (sameData : c'.data = c.data) (target_eq : c'.target = output chain.target)
    (element : c'.element = c.element) (length : c'.length = c.length)
    (integer : c.element = .i64 ∨ c.element = .i32) (nonempty : 0 < c.length)
    (short : c.length < 2 ^ 63) (hpos : 0 < c.inBatch) (hpos' : 0 < c'.inBatch)
    (hdata : g.slot c.data = .ok data) (htarget : g.slot c.target = .ok target)
    (ratio : ∀ n dims, data.shape = .ofExtents (n :: dims) →
      c'.targetBatch n = c.targetBatch n) :
    g.slot (output chain'.target) = g.slot (output chain.target) := by
  obtain ⟨old, hold, oldElement, oldShape⟩ := h.exists_target hdata htarget
  obtain ⟨new, hnew, newElement, newShape⟩ :=
    again.exists_target (sameData ▸ hdata) (target_eq ▸ hold)
  rw [hold, hnew, Except.ok.injEq]
  have sameElement : new.element = old.element := by rw [newElement, element, oldElement]
  have sameShape : new.shape = old.shape := by
    rcases newShape with ⟨unranked, same⟩ | ⟨⟨dim, ranked⟩, list⟩
    · rw [same, unranked]
    · rcases oldShape with ⟨-, unranked⟩ | ⟨-, same⟩
      · cases ranked.symm.trans unranked
      · rw [list, same, length]
  have sameValue : new.value = old.value := by
    cases known : old.value with
    | none =>
      rw [Option.eq_none_iff_forall_not_mem]
      intro t value
      obtain ⟨before, -⟩ :=
        again.exists_joined (sameData ▸ hdata) (target_eq ▸ hold) hnew value
      simp [known] at before
    | some t =>
      obtain ⟨-, ⟨n, dims, shape⟩, -⟩ := h.exists_joined hdata htarget hold known
      obtain ⟨p, rfl, type, count, head⟩ :=
        h.withHead_eq hdata shape hpos htarget hold known integer
      have whole : p.length = c'.length := by omega
      obtain ⟨new', hnew', shows⟩ := again.works.shows_target_of_rounded
        (again.works.shows_rounded (sameData ▸ hdata) shape hpos')
        ⟨old, target_eq ▸ hold, .of_value known⟩ whole (type.trans element.symm)
        (element ▸ integer) (length ▸ short)
      obtain rfl := Except.ok.inj (hnew.symm.trans hnew')
      rw [← Candidate.targetBatch, ratio n dims shape, head] at shows
      have integers : ∃ xs, p.integers? = some xs := by
        rw [← head]
        exact TensorData.exists_integers?_withHead (type ▸ integer) _
      obtain ⟨xs, integers⟩ := integers
      exact shows.value_eq integers
  obtain ⟨⟨_, _⟩, _⟩ := old
  obtain ⟨⟨_, _⟩, _⟩ := new
  simp_all

end TensorGraph.Relaxation

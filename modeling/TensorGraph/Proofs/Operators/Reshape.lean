import TensorGraph.Proofs.Operators.Monotone

/-!
# Targets of reshapes

A pattern gives data a new shape if there is one way, and only one, to fill it: its entries say what
the extents may be (`Reshape.Fills`), and the new extents have to span as many elements as the data
does. For data of fixed extents a reshape finds this one filling (`Reshape.outputShape_eq_ok_iff`).

Of data whose shape is known in part a reshape refuses nothing that may turn out to be fine, with
one exception: without the rank there is no dimension to copy (`Reshape.outputShape_of_instance`).
-/

namespace TensorGraph.Reshape

variable {extents ns ms : List Nat} {specialZero inferred : Bool} {position : Nat} {entry : Int}
  {pattern front back : List Int} {data shape : Shape} {dims : List Dim}

/-! ### Fillings -/

theorem count_eq_prod (extents : List Nat) : Shape.count extents = extents.prod := by
  induction extents with
  | nil => rfl
  | cons n rest ih => rw [Shape.count, List.prod_cons, ih]

/-- The extent that an entry may stand for: any one if it is to be inferred, that of the data at the
position of the entry if it is copied, and otherwise the entry itself. -/
def Stands (extents : List Nat) (specialZero : Bool) (position : Nat) (entry : Int) (n : Nat) :
    Prop :=
  if entry = -1 then True
  else if entry = 0 ∧ specialZero then extents[position]? = some n
  else entry = n

instance (n : Nat) : Decidable (Stands extents specialZero position entry n) :=
  inferInstanceAs (Decidable (ite ..))

/-- The extents stand for the entries of a pattern, one by one, counted from `position`. -/
def Fills (extents : List Nat) (specialZero : Bool) (position : Nat) (pattern : List Int)
    (filled : List Nat) : Prop :=
  List.Forall₂ (fun entry n => Stands extents specialZero entry.2 entry.1 n)
    (pattern.zipIdx position) filled

/-- A filling of the pattern that spans as many elements as the data. -/
def Solves (extents : List Nat) (specialZero : Bool) (pattern : List Int) (filled : List Nat) :
    Prop :=
  Fills extents specialZero 0 pattern filled ∧ filled.prod = extents.prod

theorem fills_nil : Fills extents specialZero position [] ns ↔ ns = [] := by
  simp [Fills]

theorem fills_cons :
    Fills extents specialZero position (entry :: pattern) ns ↔
      ∃ n rest, Stands extents specialZero position entry n ∧
        Fills extents specialZero (position + 1) pattern rest ∧ ns = n :: rest := by
  rw [Fills, List.zipIdx_cons, List.forall₂_cons_left_iff]
  rfl

theorem fills_append :
    Fills extents specialZero position (front ++ back) ns ↔
      ∃ ms rest, Fills extents specialZero position front ms ∧
        Fills extents specialZero (position + front.length) back rest ∧ ns = ms ++ rest := by
  induction front generalizing position ns with
  | nil => simp [fills_nil]
  | cons entry front ih =>
    simp only [List.cons_append, fills_cons, ih, List.length_cons, Nat.add_assoc,
      Nat.add_comm 1 front.length]
    constructor
    · rintro ⟨n, _, stands, ⟨ms, rest, hms, hrest, rfl⟩, rfl⟩
      exact ⟨n :: ms, rest, ⟨n, ms, stands, hms, rfl⟩, hrest, rfl⟩
    · rintro ⟨_, rest, ⟨n, ms, stands, hms, rfl⟩, hrest, rfl⟩
      exact ⟨n, ms ++ rest, stands, ⟨ms, rest, hms, hrest, rfl⟩, rfl⟩

theorem Fills.length (h : Fills extents specialZero position pattern ns) :
    ns.length = pattern.length := by
  simpa using (List.Forall₂.length_eq h).symm

/-- Each way to fill a pattern fills every entry that stands for something. -/
theorem Fills.entries (h : Fills extents specialZero position pattern ns) :
    (∀ entry ∈ pattern, -1 ≤ entry) ∧
      ∀ i, specialZero → pattern[i]? = some 0 → position + i < extents.length := by
  induction pattern generalizing position ns with
  | nil => simp
  | cons entry pattern ih =>
    obtain ⟨n, rest, stands, filled, rfl⟩ := fills_cons.1 h
    obtain ⟨least, copied⟩ := ih filled
    constructor
    · refine List.forall_mem_cons.2 ⟨?_, least⟩
      simp only [Stands] at stands
      split at stands
      · omega
      · split at stands <;> omega
    · intro i special hi
      cases i with
      | zero =>
        obtain rfl : entry = 0 := Option.some.inj hi
        simp only [Stands, special, and_self, if_true] at stands
        exact (List.getElem?_eq_some_iff.1 stands).1
      | succ i =>
        have := copied i special hi
        omega

/-! ### Entries -/

theorem extents?_ranked_map (ns : List Nat) : (ns.map Dim.fixed).mapM Dim.extent? = some ns :=
  Shape.extents?_ofExtents ns

theorem dim?_ofExtents (extents : List Nat) (i : Nat) :
    (Shape.ofExtents extents).dim? i = extents[i]?.map .fixed := by
  simp [Shape.ofExtents, Shape.dim?, Shape.dims?]

/-- An entry that is given has one extent at most. -/
theorem entryDim_eq_ok_iff (given : entry ≠ -1) {d : Dim} :
    entryDim (.ofExtents extents) specialZero inferred position entry = .ok d ↔
      ∃ n, Stands extents specialZero position entry n ∧ d = .fixed n := by
  simp only [entryDim, Stands, if_neg given, dim?_ofExtents]
  split
  · cases extents[position]? <;> simp [eq_comm]
  · split
    next nonnegative =>
      constructor
      · intro h
        exact ⟨entry.toNat, (Int.toNat_of_nonneg nonnegative).symm, (Except.ok.inj h).symm⟩
      · rintro ⟨n, rfl, rfl⟩
        rfl
    next negative =>
      simp only [reduceCtorEq, false_iff, not_exists]
      rintro n ⟨rfl, -⟩
      exact negative (Int.natCast_nonneg n)

/-- Entries that are given have one filling, and those behind them do not notice them. -/
theorem entryDims_append_eq_ok_iff (given : -1 ∉ front) :
    entryDims (.ofExtents extents) specialZero inferred position (front ++ back) = .ok dims ↔
      ∃ ns ds, Fills extents specialZero position front ns ∧
        entryDims (.ofExtents extents) specialZero inferred (position + front.length) back =
          .ok ds ∧
        dims = ns.map .fixed ++ ds := by
  induction front generalizing inferred position dims with
  | nil => simp [fills_nil]
  | cons entry front ih =>
    obtain ⟨first, later⟩ := List.ne_and_not_mem_of_not_mem_cons given
    have kept : (inferred || decide (entry = -1)) = inferred := by simp [first.symm]
    simp only [List.cons_append, entryDims, bind_eq_ok_iff, pure_eq_ok_iff, kept, ih later,
      entryDim_eq_ok_iff first.symm, fills_cons, List.length_cons, Nat.add_assoc,
      Nat.add_comm 1 front.length]
    constructor
    · rintro ⟨_, ⟨n, stands, rfl⟩, _, ⟨ns, ds, filled, hds, rfl⟩, rfl⟩
      exact ⟨n :: ns, ds, ⟨n, ns, stands, filled, rfl⟩, hds, rfl⟩
    · rintro ⟨_, ds, ⟨n, ns, stands, filled, rfl⟩, hds, rfl⟩
      exact ⟨_, ⟨n, stands, rfl⟩, _, ⟨ns, ds, filled, hds, rfl⟩, rfl⟩

theorem entryDims_eq_ok_iff (given : -1 ∉ pattern) :
    entryDims (.ofExtents extents) specialZero inferred position pattern = .ok dims ↔
      ∃ ns, Fills extents specialZero position pattern ns ∧ dims = ns.map .fixed := by
  rw [← List.append_nil pattern, entryDims_append_eq_ok_iff given]
  simp [entryDims]

/-- Without an entry to be inferred there is one filling at most. -/
theorem Fills.unique (given : -1 ∉ pattern) (h : Fills extents specialZero position pattern ns)
    (h' : Fills extents specialZero position pattern ms) : ms = ns := by
  have dims {ns : List Nat} (h : Fills extents specialZero position pattern ns) :
      entryDims (.ofExtents extents) specialZero false position pattern = .ok (ns.map .fixed) :=
    (entryDims_eq_ok_iff given).2 ⟨ns, h, rfl⟩
  have same := Except.ok.inj ((dims h').symm.trans (dims h))
  exact List.map_injective_iff.2 (fun _ _ => Dim.fixed.inj) same

theorem not_mem_of_entryDims (h : entryDims data specialZero true position pattern = .ok dims) :
    -1 ∉ pattern := by
  induction pattern generalizing position dims with
  | nil => simp
  | cons entry pattern ih =>
    simp only [entryDims, bind_eq_ok_iff, pure_eq_ok_iff, Bool.true_or] at h
    obtain ⟨d, first, rest, later, -⟩ := h
    intro again
    rcases List.mem_cons.1 again with rfl | again
    · simp [entryDim] at first
    · exact ih later again

/-- A second entry to be inferred is refused. -/
theorem count_le_one_of_entryDims
    (h : entryDims data specialZero false position pattern = .ok dims) :
    pattern.count (-1) ≤ 1 := by
  induction pattern generalizing position dims with
  | nil => simp
  | cons entry pattern ih =>
    simp only [entryDims, bind_eq_ok_iff, pure_eq_ok_iff, Bool.false_or] at h
    obtain ⟨d, -, rest, later, -⟩ := h
    by_cases here : entry = -1
    · subst here
      have nowhere_else : pattern.count (-1) = 0 :=
        List.count_eq_zero.2 (not_mem_of_entryDims (by simpa using later))
      rw [List.count_cons_self, nowhere_else]
    · rw [List.count_cons_of_ne here]
      exact ih (by simpa [here] using later)

theorem stands_inferred (n : Nat) : Stands extents specialZero position (-1) n := by
  simp [Stands]

/-- One entry that is to be inferred leaves one dimension open. -/
theorem entryDims_inferred_eq_ok_iff (hfront : -1 ∉ front) (hback : -1 ∉ back) :
    entryDims (.ofExtents extents) specialZero false 0 (front ++ -1 :: back) = .ok dims ↔
      ∃ ns ms, Fills extents specialZero 0 front ns ∧
        Fills extents specialZero (front.length + 1) back ms ∧
        dims = ns.map .fixed ++ .dynamic :: ms.map .fixed := by
  have first : entryDim (.ofExtents extents) specialZero false front.length (-1) = .ok .dynamic :=
    rfl
  simp only [entryDims_append_eq_ok_iff hfront, entryDims, bind_eq_ok_iff, pure_eq_ok_iff, first,
    entryDims_eq_ok_iff hback, Nat.zero_add, Except.ok.injEq, exists_eq_left']
  constructor
  · rintro ⟨ns, _, filled, ⟨_, ⟨ms, filled', rfl⟩, rfl⟩, rfl⟩
    exact ⟨ns, ms, filled, filled', rfl⟩
  · rintro ⟨ns, ms, filled, filled', rfl⟩
    exact ⟨ns, _, filled, ⟨_, ⟨ms, filled', rfl⟩, rfl⟩, rfl⟩

/-! ### Extents -/

theorem checkCounts_eq_ok_iff :
    checkCounts (.ofExtents extents) (.ofExtents ns) = .ok () ↔ ns.prod = extents.prod := by
  simp only [checkCounts, Shape.extents?_ofExtents, count_eq_prod]
  split <;> simp_all [eq_comm]

/-- One extent can be inferred if the others divide the number of elements. -/
theorem infer_eq_ok_iff :
    infer (.ofExtents extents) pattern (ns.map .fixed ++ .dynamic :: ms.map .fixed) ns.length =
        .ok dims ↔
      ((ns ++ ms).prod ≠ 0 ∧ (ns ++ ms).prod ∣ extents.prod) ∧
        dims = (ns ++ extents.prod / (ns ++ ms).prod :: ms).map .fixed := by
  have others : ((ns.map Dim.fixed ++ Dim.dynamic :: ms.map Dim.fixed).eraseIdx ns.length).mapM
      Dim.extent? = some (ns ++ ms) := by
    rw [List.eraseIdx_append_of_length_le (by simp)]
    simpa using extents?_ranked_map (ns ++ ms)
  have filled (n : Nat) : (ns.map Dim.fixed ++ Dim.dynamic :: ms.map Dim.fixed).set ns.length
      (.fixed n) = (ns ++ n :: ms).map .fixed := by
    simp
  simp only [infer, Shape.extents?_ofExtents, others, filled, count_eq_prod]
  split
  next refused =>
    simp only [reduceCtorEq, false_iff, not_and]
    rintro ⟨positive, divides⟩
    exact absurd (Nat.mod_eq_zero_of_dvd divides) (refused.resolve_left positive)
  next inferable =>
    obtain ⟨positive, divides⟩ := not_or.1 inferable
    rw [and_iff_right ⟨positive, Nat.dvd_of_mod_eq_zero (not_not.1 divides)⟩, Except.ok.injEq,
      eq_comm]

/-- A product has one second factor, and only one, if the first factor divides it and is not 0. -/
theorem exists_factor_iff {total rest : Nat} :
    (∃ n, n * rest = total ∧ ∀ m, m * rest = total → m = n) ↔ rest ≠ 0 ∧ rest ∣ total := by
  constructor
  · rintro ⟨n, rfl, unique⟩
    refine ⟨?_, Nat.dvd_mul_left rest n⟩
    rintro rfl
    -- every factor would do
    exact absurd (unique (n + 1) rfl) (Nat.succ_ne_self n)
  · rintro ⟨positive, n, rfl⟩
    exact ⟨n, Nat.mul_comm n rest, fun m h =>
      Nat.eq_of_mul_eq_mul_right (Nat.pos_of_ne_zero positive) (h.trans (Nat.mul_comm rest n))⟩

/-! ### Data of fixed extents -/

/-- Without an entry to be inferred the extents are those of the entries. -/
theorem outputShape_of_not_mem (given : -1 ∉ pattern) :
    outputShape (.ofExtents extents) pattern specialZero = .ok shape ↔
      ∃ filled, shape = .ofExtents filled ∧ Solves extents specialZero pattern filled := by
  simp only [outputShape, List.idxOf?_eq_none_iff.2 given, bind_eq_ok_iff, pure_eq_ok_iff,
    entryDims_eq_ok_iff given]
  constructor
  · rintro ⟨_, ⟨filled, fills, rfl⟩, _, rfl, _, counts, rfl⟩
    exact ⟨filled, rfl, fills, checkCounts_eq_ok_iff.1 counts⟩
  · rintro ⟨filled, rfl, fills, counts⟩
    exact ⟨_, ⟨filled, fills, rfl⟩, _, rfl, (), checkCounts_eq_ok_iff.2 counts, rfl⟩

/-- An entry that is to be inferred gets what the others leave of the number of elements. -/
theorem outputShape_inferred (hfront : -1 ∉ front) (hback : -1 ∉ back) :
    outputShape (.ofExtents extents) (front ++ -1 :: back) specialZero = .ok shape ↔
      ∃ ns ms, Fills extents specialZero 0 front ns ∧
        Fills extents specialZero (front.length + 1) back ms ∧
        ((ns ++ ms).prod ≠ 0 ∧ (ns ++ ms).prod ∣ extents.prod) ∧
        shape = .ofExtents (ns ++ extents.prod / (ns ++ ms).prod :: ms) := by
  have found : (front ++ -1 :: back).idxOf? (-1) = some front.length := by
    refine List.idxOf?_eq_some_iff.2 ⟨by simp, by simp, fun j hj same => hfront ?_⟩
    rw [List.getElem_append_left hj] at same
    exact same ▸ List.getElem_mem hj
  simp only [outputShape, found, bind_eq_ok_iff, pure_eq_ok_iff,
    entryDims_inferred_eq_ok_iff hfront hback]
  constructor
  · rintro ⟨_, ⟨ns, ms, fills, fills', rfl⟩, _, inferred, _, -, rfl⟩
    rw [← fills.length, infer_eq_ok_iff] at inferred
    obtain ⟨divides, rfl⟩ := inferred
    exact ⟨ns, ms, fills, fills', divides, rfl⟩
  · rintro ⟨ns, ms, fills, fills', divides, rfl⟩
    refine ⟨_, ⟨ns, ms, fills, fills', rfl⟩, _, ?_, (), checkCounts_eq_ok_iff.2 ?_, rfl⟩
    · rw [← fills.length, infer_eq_ok_iff]
      exact ⟨divides, rfl⟩
    · rw [List.prod_append, List.prod_cons, Nat.mul_left_comm, ← List.prod_append]
      exact Nat.div_mul_cancel divides.2

theorem solves_inferred_iff (hfront : -1 ∉ front) (hback : -1 ∉ back)
    (fills : Fills extents specialZero 0 front ns)
    (fills' : Fills extents specialZero (front.length + 1) back ms) {filled : List Nat} :
    Solves extents specialZero (front ++ -1 :: back) filled ↔
      ∃ n, n * (ns ++ ms).prod = extents.prod ∧ filled = ns ++ n :: ms := by
  have product (n : Nat) : (ns ++ n :: ms).prod = n * (ns ++ ms).prod := by
    rw [List.prod_append, List.prod_cons, Nat.mul_left_comm, ← List.prod_append]
  simp only [Solves, fills_append, fills_cons, Nat.zero_add]
  constructor
  · rintro ⟨⟨ns', _, hns, ⟨n, ms', -, hms, rfl⟩, rfl⟩, counts⟩
    obtain rfl := hns.unique hfront fills
    obtain rfl := hms.unique hback fills'
    exact ⟨n, (product n).symm.trans counts, rfl⟩
  · rintro ⟨n, counts, rfl⟩
    exact ⟨⟨ns, _, fills, ⟨n, ms, stands_inferred n, fills', rfl⟩, rfl⟩, (product n).trans counts⟩

/-- If one entry at most is to be inferred, a pattern gives the shape of its only filling. -/
theorem outputShape_eq_ok_iff_of_count (single : pattern.count (-1) ≤ 1) :
    outputShape (.ofExtents extents) pattern specialZero = .ok shape ↔
      ∃ filled, shape = .ofExtents filled ∧ Solves extents specialZero pattern filled ∧
        ∀ other, Solves extents specialZero pattern other → other = filled := by
  by_cases given : -1 ∈ pattern
  · obtain ⟨front, back, rfl, hfront⟩ := List.eq_append_cons_of_mem given
    have hback : -1 ∉ back := by
      rw [List.count_append, List.count_cons_self] at single
      exact List.count_eq_zero.1 (by omega)
    rw [outputShape_inferred hfront hback]
    constructor
    · rintro ⟨ns, ms, fills, fills', divides, rfl⟩
      simp only [solves_inferred_iff hfront hback fills fills']
      obtain ⟨n, -, unique⟩ := exists_factor_iff.2 divides
      have quotient := Nat.div_mul_cancel divides.2
      refine ⟨_, rfl, ⟨_, quotient, rfl⟩, ?_⟩
      rintro _ ⟨m, counts, rfl⟩
      rw [unique m counts, unique _ quotient]
    · rintro ⟨filled, rfl, solves, unique⟩
      obtain ⟨ns, _, fills, behind, -⟩ := fills_append.1 solves.1
      obtain ⟨-, ms, -, fills', -⟩ := fills_cons.1 behind
      rw [Nat.zero_add] at fills'
      simp only [solves_inferred_iff hfront hback fills fills'] at solves unique
      obtain ⟨n, counts, rfl⟩ := solves
      have only (m : Nat) (counts : m * (ns ++ ms).prod = extents.prod) : m = n := by
        simpa using unique _ ⟨m, counts, rfl⟩
      have divides := exists_factor_iff.1 ⟨n, counts, only⟩
      refine ⟨ns, ms, fills, fills', divides, ?_⟩
      rw [only _ (Nat.div_mul_cancel divides.2)]
  · rw [outputShape_of_not_mem given]
    refine exists_congr fun filled => and_congr_right fun _ => (and_iff_left_of_imp ?_).symm
    intro solves other solves'
    exact solves.1.unique given solves'.1

theorem count_le_one_of_outputShape (h : outputShape data pattern specialZero = .ok shape) :
    pattern.count (-1) ≤ 1 := by
  obtain ⟨dims, -, hdims, -⟩ := Operator.exists_of_outputShape h
  exact count_le_one_of_entryDims hdims

/-- Data of fixed extents is given a shape by the patterns of which no entry is below -1, one at
most is -1, and every copied one has a dimension to copy, if there is one way, and only one, to fill
them with as many elements; it is given the shape that they are filled with. -/
theorem outputShape_eq_ok_iff :
    outputShape (.ofExtents extents) pattern specialZero = .ok shape ↔
      (∀ entry ∈ pattern, -1 ≤ entry) ∧ pattern.count (-1) ≤ 1 ∧
        (∀ i, specialZero → pattern[i]? = some 0 → i < extents.length) ∧
        ∃ filled, shape = .ofExtents filled ∧ Solves extents specialZero pattern filled ∧
          ∀ other, Solves extents specialZero pattern other → other = filled := by
  constructor
  · intro h
    have single := count_le_one_of_outputShape h
    obtain ⟨filled, hshape, solves, unique⟩ := (outputShape_eq_ok_iff_of_count single).1 h
    obtain ⟨least, copied⟩ := solves.1.entries
    simp only [Nat.zero_add] at copied
    exact ⟨least, single, copied, filled, hshape, solves, unique⟩
  · rintro ⟨-, single, -, solution⟩
    exact (outputShape_eq_ok_iff_of_count single).2 solution

/-- Beside a literal 0 any extent would do, so that none is inferred. -/
example : outputShape (.ofExtents [0, 3]) [-1, 0] false =
    .error (.inference (.entryNotInferable [-1, 0] (.ofExtents [0, 3]))) := rfl

/-! ### Data whose shape is known in part -/

/-- While an extent of the data is open, nothing is inferred and nothing compared. -/
theorem outputShape_of_extents?_eq_none (partly : data.extents? = none) :
    outputShape data pattern specialZero =
      (entryDims data specialZero false 0 pattern).map .ranked := by
  have unchecked (target : Shape) : checkCounts data target = .ok () := by
    simp only [checkCounts, partly]
  have kept (dims : List Dim) (index : Nat) : infer data pattern dims index = .ok dims := by
    simp only [infer, partly]
  rw [outputShape]
  cases entryDims data specialZero false 0 pattern with
  | error e => rfl
  | ok dims =>
    cases pattern.idxOf? (-1) with
    | none =>
      simp only [unchecked]
      rfl
    | some index =>
      simp only [kept, unchecked]
      rfl

/-- A shape with a rank has every dimension that its instances have. -/
theorem exists_dim?_of_le {data' : Shape} {d' : Dim} (ranked : data ≠ .unranked)
    (better : data ≤ data') (h : data'.dim? position = some d') :
    ∃ d, data.dim? position = some d := by
  cases data with
  | unranked => exact absurd rfl ranked
  | ranked ds =>
    obtain ⟨ds', rfl, hds⟩ := Shape.exists_of_ranked_le better
    obtain ⟨bound, -⟩ := List.getElem?_eq_some_iff.1 h
    exact ⟨_, List.getElem?_eq_getElem (hds.length_eq ▸ bound)⟩

theorem exists_entryDim_of_le {data' : Shape} {d' : Dim} (better : data ≤ data')
    (copies : ¬(data = .unranked ∧ specialZero ∧ entry = 0))
    (h : entryDim data' specialZero inferred position entry = .ok d') :
    ∃ d, entryDim data specialZero inferred position entry = .ok d := by
  simp only [entryDim] at h ⊢
  split at h
  next inferring => exact ⟨d', by rw [if_pos inferring, h]⟩
  next given =>
    rw [if_neg given]
    split at h
    next copied =>
      rw [if_pos copied]
      split at h
      next d hd =>
        have ranked : data ≠ .unranked := fun unranked => copies ⟨unranked, copied.2, copied.1⟩
        obtain ⟨d, hd⟩ := exists_dim?_of_le ranked better hd
        exact ⟨d, by rw [hd]⟩
      · cases h
    next literal => exact ⟨d', by rw [if_neg literal, h]⟩

/-- No entry is refused for what is not known of the data, but for one that is to be copied from
data without a rank. -/
theorem exists_entryDims_of_le {data' : Shape} {ds' : List Dim} (better : data ≤ data')
    (copies : ¬(data = .unranked ∧ specialZero ∧ 0 ∈ pattern))
    (h : entryDims data' specialZero inferred position pattern = .ok ds') :
    ∃ ds, entryDims data specialZero inferred position pattern = .ok ds := by
  induction pattern generalizing inferred position ds' with
  | nil => exact ⟨[], rfl⟩
  | cons entry pattern ih =>
    simp only [entryDims, bind_eq_ok_iff, pure_eq_ok_iff] at h ⊢
    obtain ⟨d', first, ds', later, -⟩ := h
    have here : ¬(data = .unranked ∧ specialZero ∧ entry = 0) := by
      rintro ⟨unranked, special, rfl⟩
      exact copies ⟨unranked, special, List.mem_cons_self⟩
    have behind : ¬(data = .unranked ∧ specialZero ∧ 0 ∈ pattern) := by
      rintro ⟨unranked, special, zero⟩
      exact copies ⟨unranked, special, List.mem_cons_of_mem _ zero⟩
    obtain ⟨d, first⟩ := exists_entryDim_of_le better here first
    obtain ⟨ds, later⟩ := ih behind later
    exact ⟨d :: ds, d, first, ds, later, rfl⟩

theorem not_mem_of_entryDims_unranked
    (h : entryDims .unranked true inferred position pattern = .ok dims) : 0 ∉ pattern := by
  induction pattern generalizing inferred position dims with
  | nil => simp
  | cons entry pattern ih =>
    simp only [entryDims, bind_eq_ok_iff, pure_eq_ok_iff] at h
    obtain ⟨d, first, rest, later, -⟩ := h
    intro copied
    rcases List.mem_cons.1 copied with rfl | copied
    · cases first
    · exact ih later copied

/-- If a pattern fits data that a shape may stand for, it fits the shape, and what it makes of the
data is an instance of what it makes of the shape; only the dimensions of a shape without a rank
cannot be copied. -/
theorem outputShape_of_instance {target : Shape} (better : data ≤ .ofExtents extents)
    (fits : outputShape (.ofExtents extents) pattern specialZero = .ok target) :
    ((∃ shape, outputShape data pattern specialZero = .ok shape) ↔
        ¬(data = .unranked ∧ specialZero ∧ 0 ∈ pattern)) ∧
      ∀ shape, outputShape data pattern specialZero = .ok shape → shape ≤ target := by
  refine ⟨⟨?_, ?_⟩, fun shape h => Operator.outputShape_le better h fits⟩
  · rintro ⟨shape, h⟩ ⟨rfl, special, copied⟩
    obtain ⟨dims, -, hdims, -⟩ := Operator.exists_of_outputShape h
    rw [special] at hdims
    exact not_mem_of_entryDims_unranked hdims copied
  · intro copies
    cases partly : data.extents? with
    | some known =>
      -- all is known already
      rw [Shape.eq_of_extents? partly better] at fits
      exact ⟨target, fits⟩
    | none =>
      obtain ⟨_, _, hdims, -⟩ := Operator.exists_of_outputShape fits
      obtain ⟨dims, hdims⟩ := exists_entryDims_of_le better copies hdims
      rw [outputShape_of_extents?_eq_none partly, hdims]
      exact ⟨.ranked dims, rfl⟩

/-- Rows of which the number is open: it is copied, and what is to be inferred stays open too. -/
theorem outputShape_openRows :
    (.ranked [.dynamic, .fixed 4] : Shape) ≤ .ofExtents [3, 4] ∧
      outputShape (.ofExtents [3, 4]) [0, -1, 2] true = .ok (.ofExtents [3, 2, 2]) ∧
      (∃ shape, outputShape (.ranked [.dynamic, .fixed 4]) [0, -1, 2] true = .ok shape) ∧
      ∀ shape, outputShape (.ranked [.dynamic, .fixed 4]) [0, -1, 2] true = .ok shape →
        shape ≤ .ofExtents [3, 2, 2] := by
  have better : (.ranked [.dynamic, .fixed 4] : Shape) ≤ .ofExtents [3, 4] := by decide
  have fits : outputShape (.ofExtents [3, 4]) [0, -1, 2] true = .ok (.ofExtents [3, 2, 2]) := rfl
  obtain ⟨accepted, refines⟩ := outputShape_of_instance better fits
  exact ⟨better, fits, accepted.2 (by decide), refines⟩

/-- Not every pattern is accepted that may turn out to be fine: here the first dimension of data
without a rank is to be copied. -/
theorem not_forall_exists_outputShape :
    ¬∀ (data : Shape) (pattern : List Int) (specialZero : Bool),
      (∃ extents target, data ≤ .ofExtents extents ∧
        outputShape (.ofExtents extents) pattern specialZero = .ok target) →
      ∃ shape, outputShape data pattern specialZero = .ok shape := by
  intro h
  obtain ⟨shape, accepted⟩ := h .unranked [0, -1] true
    ⟨[2, 3, 4], .ofExtents [2, 12], Shape.unranked_le _, rfl⟩
  cases accepted

end TensorGraph.Reshape

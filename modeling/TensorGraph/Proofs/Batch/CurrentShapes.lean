import TensorGraph.Proofs.Batch.Resizing
import TensorGraph.Proofs.Inference.Current

/-!
# Current shapes after a relaxation

As long as the batch is the old one, a relaxed target is meant to be the one that it replaces. It is
if the nodes in front of it find all that they read known (`Candidate.Foldable`), and then relaxing
the batches of a graph leaves all outputs as they are (`Relaxation.outputs_after_relaxing`). A
candidate may read data whose other extents are not known, though. Then the target is not known any
more, nor is the shape of the reshape (`Relaxation.not_forall_types_after_relaxing`).
-/

namespace TensorGraph

namespace Relaxation

variable {c : Candidate} {cs : List Candidate} {stem : String} {chain : Chain} {g g' : Graph}
  {id : NodeId} {node node' : Node} {changed : Bool}

/-- The nodes in front of the target find all that they read known: the extents of the data, and the
target as a list of integers of the type that it declares, which holds extents. -/
structure Candidate.Foldable (g : Graph) (c : Candidate) : Prop where
  data : ∃ slot dims, g.slot c.data = .ok slot ∧ slot.shape = .ofExtents (c.inBatch :: dims)
  target : ∃ slot p, g.slot c.target = .ok slot ∧ slot.value = some (.ofData p) ∧
    p.elementType = c.element
  element : c.element = .i64 ∨ c.element = .i32
  inBatch_lt : c.inBatch < 2 ^ 63
  length_lt : c.length < 2 ^ 63

/-- The ratio of the batches gives the batch of the target for that of the data. -/
def Candidate.Exact (c : Candidate) : Prop :=
  relaxedBatch (.ofNat c.inBatch) (.ofNat c.inBatch) (.ofInt c.outBatch) = .ok (.ofInt c.outBatch)

instance (c : Candidate) : Decidable c.Exact := inferInstanceAs (Decidable (_ = _))

/-- While one candidate is relaxed, another one reads the same. -/
theorem Relaxed.slots_eq {c' : Candidate} (step : Relaxed c stem chain g g')
    (inputsLive : g.InputsLive) {target : Output} (reads : c'.Reads g target) :
    g'.slot c'.data = g.slot c'.data ∧ g'.slot target = g.slot target :=
  ⟨step.slot_old _ (inputsLive _ _ _ reads.input?.1),
    step.slot_old _ (inputsLive _ _ _ reads.input?.2)⟩

theorem Candidate.Fits.relaxed {c' : Candidate} (h : c'.Fits g) (inputsLive : g.InputsLive)
    (step : Relaxed c stem chain g g') (other : c'.reshape ≠ c.reshape) : c'.Fits g' := by
  obtain ⟨data, target⟩ := step.slots_eq inputsLive h.reshape
  exact ⟨Candidate.Reads.relaxed h.reshape step other, data ▸ h.data, target ▸ h.target,
    h.inBatch_pos, h.outBatch_pos⟩

theorem Candidate.Foldable.relaxed {c' : Candidate} (h : c'.Foldable g) (fits : c'.Fits g)
    (inputsLive : g.InputsLive) (step : Relaxed c stem chain g g') : c'.Foldable g' := by
  obtain ⟨data, target⟩ := step.slots_eq inputsLive fits.reshape
  exact ⟨data ▸ h.data, target ▸ h.target, h.element, h.inBatch_lt, h.length_lt⟩

/-- The new target of a candidate that is folded has the value of the old one. -/
theorem Relaxed.value_target_eq (step : Relaxed c stem chain g g') (inputsLive : g.InputsLive)
    (fits : c.Fits g) (foldable : c.Foldable g) (exact : c.Exact) :
    ∃ old new xs, g.slot c.target = .ok old ∧ g'.slot (output chain.target) = .ok new ∧
      new.value = old.value ∧ old.value.bind Tensor.integers? = some xs := by
  obtain ⟨sameData, sameTarget⟩ := step.slots_eq inputsLive fits.reshape
  obtain ⟨dataSlot, dims, hdata, shape⟩ := foldable.data
  obtain ⟨old, p, hold, value, element⟩ := foldable.target
  obtain ⟨old', t, rest, hold', value', integers, length, -⟩ := fits.target
  obtain rfl := Except.ok.inj (hold.symm.trans hold')
  obtain rfl := Option.some.inj (value.symm.trans value')
  replace integers : p.integers? = some (c.outBatch :: rest) := integers
  have works : chain.Works g' c stem := fun planned hplanned =>
    ⟨step.planted planned hplanned, (step.inStep planned hplanned).follows⟩
  obtain ⟨new, hnew, shows⟩ := works.shows_target (sameData.trans hdata) shape
    ⟨old, sameTarget.trans hold, .of_value value⟩
    ((TensorData.length_of_integers? integers).trans length.symm) element foldable.element
    foldable.inBatch_lt foldable.length_lt fits.inBatch_pos
  have scaled : (c.scaledBatch c.inBatch).toInt64 = .ofInt c.outBatch := by
    have out := TensorData.toInt_ofInt_of_integers? integers _ List.mem_cons_self
    have ratio := relaxedBatch_eq_ok foldable.inBatch_lt foldable.inBatch_lt fits.inBatch_pos out
    exact Except.ok.inj (ratio.symm.trans exact)
  rw [scaled, TensorData.withHead_eq_self integers] at shows
  exact ⟨old, new, _, hold, hnew, (shows.value_eq integers).trans value.symm,
    by rw [value]; exact integers⟩

/-- The reshape of a candidate that is folded computes the same as before. -/
theorem Relaxed.inStep_reshape (step : Relaxed c stem chain g g')
    (before : g.InStep .core c.reshape) (inputsLive : g.InputsLive) (fits : c.Fits g)
    (foldable : c.Foldable g) (exact : c.Exact) : g'.InStep .core c.reshape := by
  obtain ⟨node, hnode, op, inputs⟩ := fits.reshape
  obtain ⟨node', hnode', inferred⟩ := before
  obtain rfl := Option.some.inj (hnode.symm.trans hnode')
  obtain ⟨sameData, -⟩ := step.slots_eq inputsLive fits.reshape
  obtain ⟨old, new, xs, hold, hnew, value, integers⟩ :=
    step.value_target_eq inputsLive fits foldable exact
  have changed := step.node?_reshape
  rw [hnode, Option.map_some] at changed
  have found : Registry.core.find? node.op = some Operator.reshape := by
    rw [op]
    rfl
  refine ⟨_, changed, ?_⟩
  rw [Graph.inferred, found, Graph.site, inputs] at inferred ⊢
  simp only [List.map_cons, List.map_nil, List.set_cons_succ, List.set_cons_zero, sameData, hold,
    hnew] at inferred ⊢
  rw [← inferred]
  exact Operator.slots_reshape_congr value integers (by rw [inputs]; rfl)

/-- Relaxing a candidate that is folded leaves every node in step. -/
theorem Relaxed.current (step : Relaxed c stem chain g g') (current : g.Current .core)
    (inputsLive : g.InputsLive) (fits : c.Fits g) (foldable : c.Foldable g) (exact : c.Exact) :
    g'.Current .core := by
  intro id live
  rcases (step.contains id).1 live with old | new
  · by_cases e : id = c.reshape
    · exact e ▸ step.inStep_reshape (e ▸ current id old) inputsLive fits foldable exact
    · refine (Graph.InStep.congr (step.node?_old id old e) fun port o hread => ?_).2
        (current id old)
      exact step.slot_old o (inputsLive id port o hread)
  · obtain ⟨planned, hplanned, rfl⟩ := List.mem_map.1 new
    exact step.inStep planned hplanned

/-- So does relaxing several of them, and the old nodes keep their outputs. -/
theorem Relaxations.outputs_eq (h : Relaxations cs g g') (current : g.Current .core)
    (nodup : (cs.map Candidate.reshape).Nodup) (fits : ∀ c ∈ cs, c.Fits g)
    (foldable : ∀ c ∈ cs, c.Foldable g) (exact : ∀ c ∈ cs, c.Exact) :
    g'.Current .core ∧ ∀ id node, g.node? id = some node →
      ∃ node', g'.node? id = some node' ∧ node'.outputs = node.outputs := by
  induction h with
  | nil => exact ⟨current, fun _ node hnode => ⟨node, hnode, rfl⟩⟩
  | @cons c cs stem chain g g₁ g' inputsLive reads step rest ih =>
    obtain ⟨fitsHere, fits⟩ := List.forall_mem_cons.1 fits
    obtain ⟨foldableHere, foldable⟩ := List.forall_mem_cons.1 foldable
    obtain ⟨exactHere, exact⟩ := List.forall_mem_cons.1 exact
    obtain ⟨fresh, nodup⟩ := List.nodup_cons.1 nodup
    have other {c' : Candidate} (hc' : c' ∈ cs) : c'.reshape ≠ c.reshape := fun e =>
      fresh (e ▸ List.mem_map_of_mem hc')
    obtain ⟨current', kept⟩ := ih
      (step.current current inputsLive fitsHere foldableHere exactHere) nodup
      (fun c' hc' => (fits c' hc').relaxed inputsLive step (other hc'))
      (fun c' hc' => (foldable c' hc').relaxed (fits c' hc') inputsLive step) exact
    refine ⟨current', fun id node hnode => ?_⟩
    by_cases e : id = c.reshape
    · have changed := step.node?_reshape
      rw [← e, hnode, Option.map_some] at changed
      obtain ⟨node', hnode', outputs⟩ := kept id _ changed
      exact ⟨node', hnode', outputs⟩
    · have same := step.node?_old id (Graph.contains_of_node? hnode) e
      exact kept id node (same.trans hnode)

/-- A pipeline that relaxes batches, with the settings that a pipeline has unless told otherwise. -/
def relaxation : Pipeline := { stages := [.pass .relaxBatches] }

/-- Relaxing batches leaves the outputs of all nodes as they are, if every node is in step and the
candidates can be folded. -/
theorem outputs_after_relaxing (valid : g.validate = .ok ()) (fresh : g.hasStale = false)
    (current : g.Current .core) (found : candidates g = .ok cs)
    (foldable : ∀ c ∈ cs, c.Foldable g) (exact : ∀ c ∈ cs, c.Exact)
    (run : (relaxation.run ⟨.core, true⟩).runOn g = (.ok changed, g')) :
    ∀ id node node', g.node? id = some node → g'.node? id = some node' →
      node'.outputs = node.outputs := by
  obtain ⟨n, g₀, g₁, inferred, passed, tidied⟩ := Pipeline.runOn_of_pass run
  have steady : (GraphM.inferStale .core).runOn g = (.ok 0, g) :=
    Graph.runOn_inferStale_of_fresh fresh
  obtain ⟨-, rfl⟩ := Prod.mk.inj (steady.symm.trans inferred)
  obtain ⟨n', g₀', cs', inferred', found', relaxed, answer⟩ := runOn_relaxBatches_eq_ok_iff.1 passed
  obtain ⟨-, rfl⟩ := Prod.mk.inj (steady.symm.trans inferred')
  obtain rfl := Except.ok.inj (found.symm.trans found')
  obtain ⟨fits, nodup⟩ := fits_of_candidates found
  have relaxations := relaxations_of_forM (Graph.validate_eq_ok_iff.1 valid).inputsLive
    (fun c hc => (fits c hc).reshape) nodup relaxed
  obtain ⟨current', kept⟩ := relaxations.outputs_eq current nodup fits foldable exact
  intro id node node' hnode hnode'
  obtain ⟨node₁, hnode₁, outputs⟩ := kept id node hnode
  have same : g₁.node? id = some node' := by
    split at tidied
    · exact Pipeline.node?_of_tidy current' tidied hnode'
    · exact tidied ▸ hnode'
  obtain rfl := Option.some.inj (hnode₁.symm.trans same)
  exact outputs

/-- The graph with its batches relaxed and everything brought up to date. -/
def fixedBatchRelaxed : Graph := ((relaxation.run ⟨.core, true⟩).runOn fixedBatch).2

theorem foldable_fixedBatch :
    Candidate.Foldable fixedBatch ⟨2, ⟨0, 0⟩, ⟨1, 0⟩, .i64, 2, 2, 4⟩ where
  data := ⟨⟨⟨.f32, .ofExtents [2, 3, 4]⟩, none⟩, [3, 4], by decide +kernel, rfl⟩
  target := ⟨⟨⟨.i64, .ofExtents [2]⟩, some (.ofData (.i64 [4, 6]))⟩, .i64 [4, 6],
    by decide +kernel, rfl, rfl⟩
  element := .inl rfl
  inBatch_lt := by decide
  length_lt := by decide

theorem outputs_fixedBatchRelaxed :
    (fixedBatchRelaxed.node? 2).map Node.outputs = (fixedBatch.node? 2).map Node.outputs := by
  have run : (relaxation.run ⟨.core, true⟩).runOn fixedBatch = (.ok true, fixedBatchRelaxed) := by
    decide +kernel
  have exact : Candidate.Exact ⟨2, ⟨0, 0⟩, ⟨1, 0⟩, .i64, 2, 2, 4⟩ := by decide +kernel
  obtain ⟨node, hnode⟩ : ∃ node, fixedBatch.node? 2 = some node :=
    Graph.contains_iff_exists_node?.1 (by decide +kernel)
  obtain ⟨node', hnode'⟩ : ∃ node', fixedBatchRelaxed.node? 2 = some node' :=
    Graph.contains_iff_exists_node?.1 (by decide +kernel)
  rw [hnode, hnode', Option.map_some, Option.map_some]
  exact congrArg some (outputs_after_relaxing (by decide +kernel) (by decide +kernel)
    (by decide +kernel) candidates_fixedBatch (by simpa using foldable_fixedBatch)
    (by simpa using exact) run 2 node node' hnode hnode')

/-! ### An extent that is not known -/

/-- A graph with a reshape of data that are known but for one extent: `[2, ?, 4]` becomes
`[2, 12]`. -/
def partlyKnown : Graph :=
  (Graph.empty "f").after .core
    [.addParameter "x" ⟨.f32, .ranked [.fixed 2, .dynamic, .fixed 4]⟩,
      .addConstant (.ofInts [2, 12]), .makeNode { op := "Reshape", inputs := [⟨0, 0⟩, ⟨1, 0⟩] },
      .addResult ⟨2, 0⟩, .inferStale]

/-- The graph with its batches relaxed: now the reshape gives `[?, ?]`. -/
def partlyKnownRelaxed : Graph := ((relaxation.run ⟨.core, true⟩).runOn partlyKnown).2

theorem types_partlyKnown :
    (partlyKnown.node? 2).map (·.outputs.map Slot.toSlotType) =
      some [⟨.f32, .ofExtents [2, 12]⟩] := by
  decide +kernel

theorem types_partlyKnownRelaxed :
    (partlyKnownRelaxed.node? 2).map (·.outputs.map Slot.toSlotType) =
      some [⟨.f32, .ranked [.dynamic, .dynamic]⟩] := by
  decide +kernel

/-- The reshape loses its shape though the ratio of the batches is exact. -/
theorem not_forall_types_after_relaxing :
    ¬∀ (g g' : Graph) (cs : List Candidate) (changed : Bool), g.validate = .ok () → g.Mirrored →
      g.hasStale = false → g.Current .core → candidates g = .ok cs → (∀ c ∈ cs, c.Exact) →
      (relaxation.run ⟨.core, true⟩).runOn g = (.ok changed, g') →
      ∀ id node node', g.node? id = some node → g'.node? id = some node' →
        node'.outputs.map Slot.toSlotType = node.outputs.map Slot.toSlotType := by
  intro always
  have types := always partlyKnown partlyKnownRelaxed [⟨2, ⟨0, 0⟩, ⟨1, 0⟩, .i64, 2, 2, 2⟩] true
    (by decide +kernel) (by decide +kernel) (by decide +kernel) (by decide +kernel)
    (by decide +kernel) (by decide +kernel) (by decide +kernel) 2
  obtain ⟨node, hnode, before⟩ := Option.map_eq_some_iff.1 types_partlyKnown
  obtain ⟨node', hnode', after⟩ := Option.map_eq_some_iff.1 types_partlyKnownRelaxed
  have same := types node node' hnode hnode'
  rw [before, after] at same
  exact absurd same (by decide)

end Relaxation

end TensorGraph

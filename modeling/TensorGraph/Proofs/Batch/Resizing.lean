import TensorGraph.Proofs.Batch.Evaluation
import TensorGraph.Proofs.Batch.Relaxed

/-!
# Resizing after a relaxation

After the batches of a graph have been relaxed, parameters may be declared to have other types. Once
inference succeeds, every relaxed target has the scaled batch of the data that its reshape then
reads in the first place, and the other entries of the original target behind it
(`Relaxation.value_target_after_resizing`). Relaxed reshapes may depend on each other.
-/

namespace TensorGraph.Relaxation

variable {c : Candidate} {cs : List Candidate} {stem : String} {chain : Chain}
  {g g₀ g₁ g' : Graph} {calls : List Call} {dataSlot targetSlot : Slot} {b n m : Nat}
  {dims : List Nat} {p : TensorData} {changed : Bool}

/-- The nodes of a relaxed candidate are watched. -/
theorem Installed.watched (h : Installed c stem chain g)
    (fresh : ∀ q, g.Declared q → g.isStale q = false) :
    g.Watched .core (· ∈ (c.plan stem chain).map Prod.fst) where
  follows id hid := by
    obtain ⟨planned, hplanned, rfl⟩ := List.mem_map.1 hid
    exact h.follows planned hplanned
  alerted q declared stale := by simp [fresh q declared] at stale
  not_parameter id node hid hnode := by
    obtain ⟨planned, hplanned, rfl⟩ := List.mem_map.1 hid
    obtain ⟨node', hnode', op⟩ := h.exists_node? hplanned
    obtain rfl := Option.some.inj (hnode.symm.trans hnode')
    exact op ▸ (Candidate.op_of_mem_plan hplanned).1

/-- Once inference succeeds, the nodes of a relaxed candidate work, and the reshape reads the last
of them. -/
theorem Installed.works_after_inferStale (h : Installed c stem chain g) (mirrored : g.Mirrored)
    (acyclic : g.isCyclic = false) (fresh : ∀ q, g.Declared q → g.isStale q = false)
    (resizing : Graph.AllAlong .core Call.Resizing g calls)
    (inferred : (GraphM.inferStale .core).runOn (g.after .core calls) = (.ok n, g')) :
    chain.Works g' c stem ∧ g'.input? c.reshape 0 = some c.data ∧
      g'.input? c.reshape 1 = some (output chain.target) := by
  have follows :=
    Graph.follows_after_inferStale (h.watched fresh) mirrored acyclic resizing inferred
  have same := (Graph.SameSkeleton.resized resizing).trans
    (GraphM.sameSkeleton_of_inferStale inferred)
  refine ⟨fun planned hplanned => ⟨?_, follows _ (List.mem_map_of_mem hplanned)⟩, ?_⟩
  · rw [same.bare, h.planted planned hplanned]
  · rw [same.input?, same.input?]
    exact h.reads.input?

/-- Whatever types parameters have been declared to have since the batches were relaxed, once
inference succeeds the target of a relaxed reshape is the original one with the scaled batch of the
data in the first place. -/
theorem value_target_after_resizing (valid : g.validate = .ok ()) (mirrored : g.Mirrored)
    (run : (Pass.relaxBatches.run ⟨.core, true⟩).runOn g = (.ok changed, g₁))
    (first : (GraphM.inferStale .core).runOn g = (.ok n, g₀)) (found : candidates g₀ = .ok cs)
    (hc : c ∈ cs) (resizing : Graph.AllAlong .core Call.Resizing g₁ calls)
    (inferred : (GraphM.inferStale .core).runOn (g₁.after .core calls) = (.ok m, g'))
    (hdata : g'.slot c.data = .ok dataSlot) (shape : dataSlot.shape = .ofExtents (b :: dims))
    (htarget : g'.slot c.target = .ok targetSlot) (value : targetSlot.value = some (.ofData p))
    (length : p.length = c.length) (element : p.elementType = c.element)
    (integer : c.element = .i64 ∨ c.element = .i32) (hb : b < 2 ^ 63) (hin : c.inBatch < 2 ^ 63)
    (hlength : c.length < 2 ^ 63) :
    g'.input? c.reshape 0 = some c.data ∧
      ∃ o slot r, g'.input? c.reshape 1 = some o ∧ g'.slot o = .ok slot ∧
        relaxedBatch (.ofNat b) (.ofNat c.inBatch) (.ofInt c.outBatch) = .ok r ∧
          slot.value = some (.ofData (p.withHead r)) := by
  have valid := Graph.validate_eq_ok_iff.1 valid
  obtain ⟨n', g₀', cs', first', found', relaxed, -⟩ := runOn_relaxBatches_eq_ok_iff.1 run
  obtain ⟨-, rfl⟩ := Prod.mk.inj (first'.symm.trans first)
  obtain rfl := Except.ok.inj (found'.symm.trans found)
  obtain ⟨fits, nodup⟩ := fits_of_candidates found
  have same := GraphM.sameSkeleton_of_inferStale first
  have fresh := Graph.isStale_eq_false_of_inferStale valid.acyclic first
  have wired := (valid.wired mirrored).of_sameLinks same.sameLinks
  have acyclic := same.isCyclic.2 valid.acyclic
  have relaxations :=
    relaxations_of_forM wired.inputs_live (fun c hc => (fits c hc).reshape) nodup relaxed
  obtain ⟨stem, chain, installed⟩ := relaxations.exists_installed nodup hc
  obtain ⟨works, readsData, readsTarget⟩ := installed.works_after_inferStale
    (relaxations.wired wired).toMirrored (relaxations.acyclic wired acyclic)
    (relaxations.isStale_declared wired fun q _ => fresh q) resizing inferred
  obtain ⟨slot, hslot, shows⟩ := works.shows_target hdata shape
    ⟨targetSlot, htarget, .of_value value⟩ length element integer hb hlength (fits c hc).inBatch_pos
  obtain ⟨_, t, rest, _, _, integers, -⟩ := (fits c hc).target
  have hout := TensorData.toInt_ofInt_of_integers? integers c.outBatch List.mem_cons_self
  refine ⟨readsData, _, slot, _, readsTarget, hslot,
    relaxedBatch_eq_ok hb hin (fits c hc).inBatch_pos hout, ?_⟩
  obtain ⟨xs, known⟩ := TensorData.exists_integers?_withHead (element ▸ integer)
    (c.scaledBatch b).toInt64
  exact shows.value_eq known

/-! ### An enlarged batch -/

/-- A graph with a reshape that fixes the batch: `[2, 3, 4]` becomes `[4, 6]`. -/
def fixedBatch : Graph :=
  (Graph.empty "f").after .core
    [.addParameter "x" ⟨.f32, .ofExtents [2, 3, 4]⟩, .addConstant (.ofInts [4, 6]),
      .makeNode { op := "Reshape", inputs := [⟨0, 0⟩, ⟨1, 0⟩] }, .addResult ⟨2, 0⟩, .inferStale]

/-- The graph with its batches relaxed. -/
def relaxedBatches : Graph := ((Pass.relaxBatches.run ⟨.core, true⟩).runOn fixedBatch).2

/-- The batch is declared to be 5. -/
def enlargement : List Call := [.setOutputType ⟨0, 0⟩ ⟨.f32, .ofExtents [5, 3, 4]⟩]

/-- The graph in which the inference after that ends. -/
def enlarged : Graph := ((GraphM.inferStale .core).runOn (relaxedBatches.after .core enlargement)).2

theorem run_fixedBatch :
    (Pass.relaxBatches.run ⟨.core, true⟩).runOn fixedBatch = (.ok true, relaxedBatches) := by
  decide +kernel

theorem candidates_fixedBatch :
    candidates fixedBatch = .ok [⟨2, ⟨0, 0⟩, ⟨1, 0⟩, .i64, 2, 2, 4⟩] := by
  decide +kernel

theorem resizing_enlargement :
    Graph.AllAlong .core Call.Resizing relaxedBatches enlargement := by
  have parameter : (relaxedBatches.node? 0).map Node.op = some "Parameter" := by decide +kernel
  refine ⟨fun node hnode => ?_, trivial⟩
  rw [hnode] at parameter
  exact Option.some.inj parameter

theorem inferStale_enlargement :
    (GraphM.inferStale .core).runOn (relaxedBatches.after .core enlargement) =
      (.ok 10, enlarged) := by
  decide +kernel

/-- The target is `[10, 6]` then. -/
theorem value_target_after_enlargement :
    enlarged.input? 2 0 = some ⟨0, 0⟩ ∧
      ∃ o slot r, enlarged.input? 2 1 = some o ∧ enlarged.slot o = .ok slot ∧
        relaxedBatch (.ofNat 5) (.ofNat 2) (.ofInt 4) = .ok r ∧
          slot.value = some (.ofData ((TensorData.i64 [4, 6]).withHead r)) := by
  have upToDate : (GraphM.inferStale .core).runOn fixedBatch = (.ok 0, fixedBatch) := by
    decide +kernel
  have slots : enlarged.slot ⟨0, 0⟩ = .ok ⟨⟨.f32, .ofExtents [5, 3, 4]⟩, none⟩ ∧
      enlarged.slot ⟨1, 0⟩ = .ok ⟨⟨.i64, .ofExtents [2]⟩, some (.ofData (.i64 [4, 6]))⟩ := by
    decide +kernel
  have enlargedTarget := value_target_after_resizing (by decide +kernel) (by decide +kernel)
    run_fixedBatch upToDate candidates_fixedBatch List.mem_cons_self resizing_enlargement
    inferStale_enlargement slots.1 rfl slots.2 rfl rfl rfl (.inl rfl) (by decide) (by decide)
    (by decide)
  exact enlargedTarget

end TensorGraph.Relaxation

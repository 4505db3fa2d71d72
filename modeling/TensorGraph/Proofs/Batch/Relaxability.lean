import TensorGraph.Proofs.Batch.CurrentShapes
import TensorGraph.Proofs.Batch.Qualifying
import TensorGraph.Proofs.Batch.Repetition
import TensorGraph.Proofs.Inference.Monotone
import TensorGraph.Proofs.Operators.Progress

/-!
# Which reshapes can be relaxed

A reshape reads its target as a list of integers, whatever the rank of the tensor. The nodes in
front of a relaxed target take its entries along the first dimension, though. So the pass does what
it is for exactly if the targets of the reshapes that qualify have one dimension
(`Graph.relaxes_iff`). The search selects a reshape whose target is a matrix as well, and then the
pass fails when it has made most of the nodes already.
-/

namespace TensorGraph

/-- The action succeeds, with an answer and a graph that have the property. -/
def GraphM.Succeeds {α : Type} (x : GraphM α) (g : Graph) (P : α → Graph → Prop) : Prop :=
  ∃ a g', x.runOn g = (.ok a, g') ∧ P a g'

theorem GraphM.succeeds_bind {α β : Type} {x : GraphM α} {f : α → GraphM β} {g : Graph}
    {P : β → Graph → Prop} :
    (x >>= f).Succeeds g P ↔ x.Succeeds g fun a g' => (f a).Succeeds g' P := by
  simp only [Succeeds, runOn_bind_eq_ok_iff]
  constructor
  · rintro ⟨b, g', ⟨a, g₁, first, second⟩, h⟩
    exact ⟨a, g₁, first, b, g', second, h⟩
  · rintro ⟨a, g₁, first, b, g', second, h⟩
    exact ⟨b, g', ⟨a, g₁, first, second⟩, h⟩

namespace Graph

/-- The graph has all nodes of an older one, and of some outputs the slots are known. -/
structure Knows (g₀ g : Graph) (known : List (Output × Slot)) : Prop where
  node?_old : ∀ id, g₀.contains id → g.node? id = g₀.node? id
  slot : ∀ entry ∈ known, g.slot entry.1 = .ok entry.2

variable {g₀ g : Graph} {known : List (Output × Slot)} {node : Node} {seen : List Slot}
  {operator : Operator} {type : SlotType} {P : NodeId → Graph → Prop}

namespace Knows

/-- A new node is made of which the one output is known. -/
theorem insert (h : g₀.Knows g known) {g' : Graph} {slot : Slot}
    (old : ∀ id, g.contains id → g'.node? id = g.node? id)
    (new : ∃ node, g'.node? g.nextId = some node ∧ node.outputs = [slot]) :
    g₀.Knows g' ((⟨g.nextId, 0⟩, slot) :: known) where
  node?_old id hid := by
    have kept : g.contains id := (contains_congr (h.node?_old id hid)).trans hid
    rw [old id kept, h.node?_old id hid]
  slot := by
    refine List.forall_mem_cons.2 ⟨?_, fun entry hentry => ?_⟩
    · obtain ⟨node, hnode, outputs⟩ := new
      exact slot_eq_ok_iff.2 ⟨node, hnode, by rw [outputs]; rfl⟩
    · obtain ⟨node, hnode, -⟩ := slot_eq_ok_iff.1 (h.slot entry hentry)
      rw [slot_congr (old _ (contains_of_node? hnode)), h.slot entry hentry]

/-- A node is made whose operator does not fail on what it reads. -/
theorem make (h : g₀.Knows g known) (seen : List Slot)
    (found : Registry.core.find? node.op = some operator)
    (reads : List.Forall₂ (fun o slot => (o, slot) ∈ known) node.inputs seen)
    (yields : operator.Yields node seen type)
    (next : ∀ id g' slot, slot.Bears type → g₀.Knows g' ((⟨id, 0⟩, slot) :: known) → P id g') :
    (GraphM.makeNode .core node).Succeeds g P := by
  obtain ⟨slot, computed, bears⟩ := yields
  have inserted : (node.inputs.map (g.insert node).slot) = seen.map .ok := by
    clear computed
    generalize node.inputs = inputs at reads
    induction reads with
    | nil => rfl
    | @cons o slot inputs seen first _ ih =>
      have hslot := h.slot _ first
      obtain ⟨producer, hproducer, -⟩ := slot_eq_ok_iff.1 hslot
      rw [List.map_cons, List.map_cons, ih,
        slot_congr (node?_insert_of_contains (contains_of_node? hproducer) node), hslot]
  have inferred : (g.insert node).inferred .core node = .ok [slot] := by
    rw [Graph.inferred, found, site, inserted]
    exact computed
  have made : (GraphM.makeNode .core node).runOn g =
      (.ok g.nextId, (g.insert node).update g.nextId [slot]) := by
    rw [GraphM.runOn_makeNode, inferred]
  refine ⟨_, _, made, next _ _ slot bears (h.insert (fun id hid => ?_) ?_)⟩
  · rw [node?_update, if_neg (ne_nextId hid), node?_insert_of_contains hid]
  · refine ⟨{ node with outputs := [slot] }, ?_, rfl⟩
    rw [node?_update, if_pos rfl, node?_insert, if_pos rfl]
    rfl

/-- A constant is made. -/
theorem constant (h : g₀.Knows g known) {t : Tensor}
    (next : ∀ id g', g₀.Knows g' ((⟨id, 0⟩, t.literal) :: known) → P id g') :
    (GraphM.addConstant t).Succeeds g P := by
  refine ⟨_, _, GraphM.runOn_addConstant t g, next _ _ (h.insert (fun id hid => ?_) ?_)⟩
  · rw [node?_insert_of_contains hid]
  · exact ⟨GraphM.constantNode t, by rw [node?_insert, if_pos rfl], rfl⟩

end Knows

end Graph

namespace Relaxation

open TensorGraph.Graph Operator

variable {c : Candidate} {cs : List Candidate} {g g' : Graph}

/-- The nodes that a relaxation makes find what they need: data of a known rank, and a target that
is a list of integers of the type that it declares. -/
structure Candidate.Listed (g : Graph) (c : Candidate) : Prop where
  data : ∃ slot rank, g.slot c.data = .ok slot ∧ slot.Coherent ∧ slot.shape.rank? = some (rank + 1)
  target : ∃ slot, g.slot c.target = .ok slot ∧ slot.Bears ⟨c.element, .ofExtents [c.length]⟩
  element_ne : c.element ≠ .f16
  length_lt : c.length < 2 ^ 63

/-- None of the nodes that are made for a candidate fails. -/
theorem exists_runOn_relax (reads : c.Reads g c.target) (h : c.Listed g) :
    ∃ g', (relax .core c).runOn g = (.ok (), g') := by
  obtain ⟨data, rank, hdata, coherent, ranked⟩ := h.data
  obtain ⟨target, htarget, list⟩ := h.target
  obtain ⟨node, hnode, -, inputs⟩ := reads
  have ofData (data : TensorData) : (Tensor.ofData data).literal.Bears
      ⟨data.elementType, .ofExtents [data.length]⟩ :=
    Tensor.bears_literal (Tensor.wellFormed_ofData data)
  let zero := (Tensor.ofInts [0]).literal
  have within : ([0].map Int.ofNat).mapM (Gather.position (rank + 1)) = .ok [0] :=
    Gather.mapM_position (by simp)
  have known : g.Knows g [(c.data, data), (c.target, target)] :=
    ⟨fun _ _ => rfl, by simp [hdata, htarget]⟩
  suffices (relax .core c).Succeeds g fun _ _ => True by
    obtain ⟨_, g', run, -⟩ := this
    exact ⟨g', run⟩
  simp only [relax, GraphM.succeeds_bind]
  refine ⟨node, g, by rw [GraphM.runOn_ask, node_eq_ok_iff.2 hnode], ?_⟩
  -- the batch of the data
  refine known.make [data] rfl (by simp) (yields_shapeOf rfl rfl rfl coherent ranked)
    fun shape g₁ shapeSlot ofShape known => ?_
  refine known.constant fun first g₂ known => ?_
  refine known.constant fun axis g₃ known => ?_
  refine known.make [shapeSlot, zero, zero] rfl (by simp [zero]) (yields_gather rfl rfl ofShape
    (ofData _).coherent (ofData _).coherent rfl rfl rfl within rfl rfl)
    fun batch g₄ batchSlot ofBatch known => ?_
  -- scaled, as a number
  refine known.make [batchSlot] rfl (by simp) (yields_convert rfl rfl rfl (by decide) ofBatch)
    fun number g₅ numberSlot ofNumber known => ?_
  refine known.constant fun outBatch g₆ known => ?_
  refine known.make [numberSlot, (oneNumber c.outBatch).literal] rfl (by simp)
    (yields_binary rfl rfl ofNumber (ofData _)) fun scaled g₇ scaledSlot ofScaled known => ?_
  refine known.constant fun inBatch g₈ known => ?_
  refine known.make [scaledSlot, (oneNumber c.inBatch).literal] rfl (by simp)
    (yields_binary rfl rfl ofScaled (ofData _)) fun ratio g₉ ratioSlot ofRatio known => ?_
  refine known.make [ratioSlot] rfl (by simp) (yields_unary rfl rfl ofRatio)
    fun rounded g₁₀ roundedSlot ofRounded known => ?_
  refine known.make [roundedSlot] rfl (by simp)
    (yields_convert rfl rfl rfl h.element_ne ofRounded)
    fun modified g₁₁ modifiedSlot ofModified known => ?_
  -- in front of the other entries of the target
  refine known.constant fun indices g₁₂ known => ?_
  refine known.make [target, c.indices.literal, zero] rfl (by simp [zero, Candidate.indices])
    (yields_gather rfl rfl list (ofData _).coherent (ofData _).coherent c.extents_indices rfl
      (c.integers?_indices h.length_lt) c.mapM_position_indices rfl rfl)
    fun rest g₁₃ restSlot ofRest known => ?_
  refine known.make [modifiedSlot, restSlot] rfl (by simp)
    (yields_concat rfl rfl rfl ofModified ofRest) fun last g₁₄ lastSlot ofLast known => ?_
  -- which the reshape reads
  have port : (g₁₄.input? c.reshape 1).isSome := by
    rw [input?_eq ((known.node?_old _ (contains_of_node? hnode)).trans hnode), inputs]
    rfl
  exact ⟨_, _, GraphM.runOn_setInput_of_input? port _, trivial⟩

/-- They do if the target has one dimension. -/
theorem Candidate.Fits.listed (fits : c.Fits g) (coherent : g.Coherent) {target : Slot}
    (htarget : g.slot c.target = .ok target) (list : target.shape.rank? = some 1)
    (addressable : ∀ t, target.value = some t → t.length < 2 ^ 63) : c.Listed g := by
  obtain ⟨data, dims, hdata, rows⟩ := fits.data
  obtain ⟨target', t, rest, htarget', value, integers, length, element⟩ := fits.target
  obtain rfl := Except.ok.inj (htarget.symm.trans htarget')
  obtain ⟨type, wellFormed⟩ := coherent.of_slot htarget t value
  have sameElement : c.element = t.elementType := element.trans (congrArg SlotType.element type)
  have shape : target.shape = t.shape := congrArg SlotType.shape type
  have rank : t.rank = 1 := by simpa [shape, Tensor.shape, Tensor.rank] using list
  have count : t.data.length = c.length :=
    (TensorData.length_of_integers? integers).trans length.symm
  refine ⟨⟨data, dims.length, hdata, coherent.of_slot hdata, by rw [rows]; rfl⟩,
    ⟨target, htarget, ?_, coherent.of_slot htarget⟩, ?_, count ▸ addressable t value⟩
  · rw [type, sameElement, Tensor.shape, extents_of_rank_one wellFormed rank, count]
  · rw [sameElement, Tensor.elementType]
    cases t.data <;> simp [TensorData.elementType]

theorem Candidate.Listed.relaxed {c' : Candidate} {stem : String} {chain : Chain}
    (h : c'.Listed g) (fits : c'.Fits g) (inputsLive : g.InputsLive)
    (step : Relaxed c stem chain g g') : c'.Listed g' := by
  obtain ⟨data, target⟩ := step.slots_eq inputsLive fits.reshape
  exact ⟨data ▸ h.data, target ▸ h.target, h.element_ne, h.length_lt⟩

/-- Nor do those that are made for one candidate after the other. -/
theorem exists_runOn_forM (inputsLive : g.InputsLive) (fits : ∀ c ∈ cs, c.Fits g)
    (listed : ∀ c ∈ cs, c.Listed g) (nodup : (cs.map Candidate.reshape).Nodup) :
    ∃ g', (cs.forM (relax .core)).runOn g = (.ok (), g') := by
  induction cs generalizing g with
  | nil => exact ⟨g, rfl⟩
  | cons c cs ih =>
    obtain ⟨fitsHere, fits⟩ := List.forall_mem_cons.1 fits
    obtain ⟨listedHere, listed⟩ := List.forall_mem_cons.1 listed
    obtain ⟨fresh, nodup⟩ := List.nodup_cons.1 nodup
    obtain ⟨g₁, first⟩ := exists_runOn_relax fitsHere.reshape listedHere
    obtain ⟨stem, chain, step⟩ := exists_relaxed inputsLive fitsHere.reshape first
    obtain ⟨g', later⟩ := ih step.inputsLive
      (fun c' hc' => (fits c' hc').relaxed inputsLive step fun e =>
        fresh (e ▸ List.mem_map_of_mem hc'))
      (fun c' hc' => (listed c' hc').relaxed (fits c' hc') inputsLive step) nodup
    exact ⟨g', GraphM.runOn_bind_eq_ok_iff.2 ⟨(), g₁, first, later⟩⟩

/-- If a candidate has been relaxed, its target has one dimension, as far as its rank is known. -/
theorem Relaxations.target_list (h : Relaxations cs g g') (nodup : (cs.map Candidate.reshape).Nodup)
    (fits : ∀ c ∈ cs, c.Fits g) (hc : c ∈ cs) {target : Slot}
    (htarget : g.slot c.target = .ok target) :
    target.shape = .unranked ∨ ∃ dim, target.shape = .ranked [dim] := by
  induction h with
  | nil => cases hc
  | @cons c' cs stem chain g g₁ g' inputsLive reads step rest ih =>
    obtain ⟨fitsHere, fits⟩ := List.forall_mem_cons.1 fits
    obtain ⟨fresh, nodup⟩ := List.nodup_cons.1 nodup
    rcases List.mem_cons.1 hc with rfl | hc
    · obtain ⟨sameData, sameTarget⟩ := step.slots_eq inputsLive fitsHere.reshape
      obtain ⟨data, _, hdata, -⟩ := fitsHere.data
      have stands : chain.Stands g₁ c stem := fun planned hplanned =>
        ⟨step.planted planned hplanned, step.inStep planned hplanned⟩
      obtain ⟨_, -, -, ⟨unranked, -⟩ | ⟨list, -⟩⟩ :=
        stands.exists_target (sameData.trans hdata) (sameTarget.trans htarget)
      · exact .inl unranked
      · exact .inr list
    · have fits' := (fits c hc).relaxed inputsLive step fun e => fresh (e ▸ List.mem_map_of_mem hc)
      obtain ⟨-, sameTarget⟩ := step.slots_eq inputsLive (fits c hc).reshape
      exact ih nodup (fun c' hc' => (fits c' hc').relaxed inputsLive step fun e =>
        fresh (e ▸ List.mem_map_of_mem hc')) hc (sameTarget.trans htarget)

/-- So the target has one dimension in a coherent graph, since it is known. -/
theorem rank?_of_runOn_forM (inputsLive : g.InputsLive) (coherent : g.Coherent)
    (fits : ∀ c ∈ cs, c.Fits g) (nodup : (cs.map Candidate.reshape).Nodup)
    (run : (cs.forM (relax .core)).runOn g = (.ok (), g')) (hc : c ∈ cs) {target : Slot}
    (htarget : g.slot c.target = .ok target) : target.shape.rank? = some 1 := by
  have relaxations := relaxations_of_forM inputsLive (fun c hc => (fits c hc).reshape) nodup run
  obtain ⟨target', t, _, htarget', value, -⟩ := (fits c hc).target
  obtain rfl := Except.ok.inj (htarget.symm.trans htarget')
  have shape : target.shape = t.shape :=
    congrArg SlotType.shape (coherent.of_slot htarget t value).1
  rcases relaxations.target_list nodup fits hc htarget with unranked | ⟨dim, list⟩
  · cases unranked.symm.trans shape
  · rw [list]
    rfl

/-- If the search fails, so does the pass, and it changes nothing. -/
theorem runOn_relaxBatches_of_error {registry : Registry} {e : Error} (fresh : g.hasStale = false)
    (failed : candidates g = .error e) :
    (Pass.relaxBatches.run ⟨registry, true⟩).runOn g = (.error e, g) := by
  have steps : Pass.relaxBatches.run ⟨registry, true⟩ = (do
      let _ ← GraphM.inferStale registry
      let found ← GraphM.ask candidates
      found.forM (relax registry)
      pure !found.isEmpty) := rfl
  simp only [steps, GraphM.runOn_bind, runOn_inferStale_of_fresh fresh, GraphM.runOn_ask, failed]

/-- Otherwise it succeeds if the relaxation of the candidates does. -/
theorem runOn_relaxBatches_of_fresh {registry : Registry} {changed : Bool}
    (fresh : g.hasStale = false) (found : candidates g = .ok cs) :
    (Pass.relaxBatches.run ⟨registry, true⟩).runOn g = (.ok changed, g') ↔
      (cs.forM (relax registry)).runOn g = (.ok (), g') ∧ changed = !cs.isEmpty := by
  have steady : (GraphM.inferStale registry).runOn g = (.ok 0, g) :=
    runOn_inferStale_of_fresh fresh
  rw [runOn_relaxBatches_eq_ok_iff]
  constructor
  · rintro ⟨n, g₀, cs', inferred, found', relaxed, answer⟩
    obtain ⟨-, rfl⟩ := Prod.mk.inj (steady.symm.trans inferred)
    obtain rfl := Except.ok.inj (found.symm.trans found')
    exact ⟨relaxed, answer⟩
  · rintro ⟨relaxed, answer⟩
    exact ⟨0, g, cs, steady, found, relaxed, answer⟩

end Relaxation

namespace Graph

open Relaxation

variable {g g₀ : Graph} {n : Nat}

/-- A run of the pass that does what the pass is for. It changes the batch of every reshape that
qualifies to a computed one, and says whether there is one; or it refuses, and changes nothing,
since the data of one that qualifies have the batch 0. -/
def Relaxes (g : Graph) (run : Except Error Bool × Graph) : Prop :=
  (∃ id node target, g.Qualifies id node 0 target ∧
    run = (.error (.precondition (.zeroInputBatch node.name)), g)) ∨
  ∃ changed g', run = (.ok changed, g') ∧
    (changed = true ↔ ∃ id node batch target, g.Qualifies id node batch target) ∧
    ∀ id node batch target, g.Qualifies id node batch target →
      ∃ c stem chain, c.reshape = id ∧ Installed c stem chain g'

/-- On a valid graph that inference has brought up to date the pass does what it is for, if the
target of every reshape that qualifies has one dimension. A target of another rank makes it fail,
unless the search has failed before. -/
theorem relaxes_iff (inferred : (GraphM.inferStale .core).runOn g₀ = (.ok n, g))
    (valid : g.validate = .ok ()) (coherent : g.Coherent)
    (addressable : ∀ o slot t, g.slot o = .ok slot → slot.value = some t → t.length < 2 ^ 63) :
    g.Relaxes ((Pass.relaxBatches.run ⟨.core, true⟩).runOn g) ↔
      (∃ id node target, g.Qualifies id node 0 target) ∨
        ∀ id node batch target, g.Qualifies id node batch target →
          target.shape.rank? = some 1 := by
  rw [validate_eq_ok_iff] at valid
  have same := GraphM.sameSkeleton_of_inferStale inferred
  have fresh : g.hasStale = false := hasStale_eq_false_iff.2
    (isStale_eq_false_of_inferStale (same.isCyclic.1 valid.acyclic) inferred)
  rcases candidates_cases valid with ⟨cs, found, complete, sound⟩ | ⟨id, node, target, failed, zero⟩
  · obtain ⟨fits, nodup⟩ := fits_of_candidates found
    have nonzero : ¬∃ id node target, g.Qualifies id node 0 target := by
      rintro ⟨id, node, target, zero⟩
      obtain ⟨c, hc, -, none, -⟩ := complete id node 0 target zero
      exact (fits c hc).inBatch_pos.ne' none
    constructor
    · rintro (⟨id, node, target, zero, -⟩ | ⟨changed, g', run, -⟩)
      · exact absurd ⟨id, node, target, zero⟩ nonzero
      · right
        intro id node batch target h
        obtain ⟨c, hc, -, -, htarget⟩ := complete id node batch target h
        exact rank?_of_runOn_forM valid.inputsLive coherent fits nodup
          ((runOn_relaxBatches_of_fresh fresh found).1 run).1 hc htarget
    · rintro (zero | lists)
      · exact absurd zero nonzero
      · have listed : ∀ c ∈ cs, c.Listed g := by
          intro c hc
          obtain ⟨node, target, h, htarget⟩ := sound c hc
          exact (fits c hc).listed coherent htarget (lists _ _ _ _ h)
            fun t value => addressable _ _ t htarget value
        obtain ⟨g', relaxed⟩ := exists_runOn_forM valid.inputsLive fits listed nodup
        have relaxations := relaxations_of_forM valid.inputsLive
          (fun c hc => (fits c hc).reshape) nodup relaxed
        refine .inr ⟨!cs.isEmpty, g',
          (runOn_relaxBatches_of_fresh fresh found).2 ⟨relaxed, rfl⟩, ?_, ?_⟩
        · rw [Bool.not_eq_true', List.isEmpty_eq_false_iff_exists_mem]
          constructor
          · rintro ⟨c, hc⟩
            obtain ⟨node, target, h, -⟩ := sound c hc
            exact ⟨_, _, _, _, h⟩
          · rintro ⟨id, node, batch, target, h⟩
            obtain ⟨c, hc, -⟩ := complete id node batch target h
            exact ⟨c, hc⟩
        · intro id node batch target h
          obtain ⟨c, hc, rfl, -⟩ := complete id node batch target h
          obtain ⟨stem, chain, installed⟩ := relaxations.exists_installed nodup hc
          exact ⟨c, stem, chain, rfl, installed⟩
  · exact iff_of_true
      (.inl ⟨id, node, target, zero, runOn_relaxBatches_of_error fresh failed⟩)
      (.inl ⟨id, node, target, zero⟩)

theorem relaxes_fixedBatch :
    fixedBatch.Relaxes ((Pass.relaxBatches.run ⟨.core, true⟩).runOn fixedBatch) := by
  have valid : fixedBatch.validate = .ok () := by decide +kernel
  have inferred : (GraphM.inferStale .core).runOn fixedBatch = (.ok 0, fixedBatch) := by
    decide +kernel
  have coherent : fixedBatch.Coherent :=
    Current.coherent (by decide +kernel) (by decide +kernel)
      (validate_eq_ok_iff.1 valid).acyclic (by decide +kernel)
  have small : ∀ id node, fixedBatch.node? id = some node →
      ∀ slot ∈ node.outputs, ∀ t ∈ slot.value, t.length < 2 ^ 63 :=
    forall_node_iff.2 (by decide +kernel)
  refine (relaxes_iff inferred valid coherent (fun o slot t hslot value => ?_)).2 (.inr ?_)
  · obtain ⟨node, hnode, hout⟩ := slot_eq_ok_iff.1 hslot
    exact small _ node hnode slot (List.mem_of_getElem? hout) t value
  · intro id node batch target h
    have only : ∀ id node, fixedBatch.node? id = some node → node.op = "Reshape" →
        node.inputs[1]? = some ⟨1, 0⟩ := forall_node_iff.2 (by decide +kernel)
    have list : (fixedBatch.slot ⟨1, 0⟩).map (·.shape.rank?) = .ok (some 1) := by decide +kernel
    obtain ⟨_, o, _, inputs, -, htarget, -⟩ := h.reads
    obtain rfl : o = ⟨1, 0⟩ := by simpa [inputs] using only id node h.placed h.op
    rw [htarget] at list
    exact Except.ok.inj list

/-! ### A target of two dimensions -/

/-- A graph with a reshape whose target is a matrix: `[2, 3, 4]` becomes `[2, 12]`. -/
def matrixTarget : Graph :=
  (Graph.empty "f").after .core
    [.addParameter "x" ⟨.f32, .ofExtents [2, 3, 4]⟩, .addConstant ⟨.i64 [2, 12], [1, 2]⟩,
      .makeNode { op := "Reshape", inputs := [⟨0, 0⟩, ⟨1, 0⟩] }, .addResult ⟨2, 0⟩, .inferStale]

/-- The pass fails although no data have the batch 0: the computed batch cannot be put in front of
what has been taken from the matrix. -/
theorem not_forall_zeroInputBatch_of_error :
    ¬∀ (g₀ g : Graph) (n : Nat) (e : Error), (GraphM.inferStale .core).runOn g₀ = (.ok n, g) →
      g.validate = .ok () → g.Mirrored → g.Coherent →
      ((Pass.relaxBatches.run ⟨.core, true⟩).runOn g).1 = .error e →
      ∃ id node target, g.Qualifies id node 0 target ∧
        e = .precondition (.zeroInputBatch node.name) := by
  intro always
  have valid : matrixTarget.validate = .ok () := by decide +kernel
  have mirrored : matrixTarget.Mirrored := by decide +kernel
  have coherent : matrixTarget.Coherent := Current.coherent (by decide +kernel) mirrored
    (validate_eq_ok_iff.1 valid).acyclic (by decide +kernel)
  have failed : ((Pass.relaxBatches.run ⟨.core, true⟩).runOn matrixTarget).1 =
      .error (.untyped "/target" "Concat" (.inference (.concatRank 1 2 1))) := by decide +kernel
  obtain ⟨_, _, _, -, other⟩ :=
    always matrixTarget matrixTarget 0 _ (by decide +kernel) valid mirrored coherent failed
  cases other

end Graph

end TensorGraph

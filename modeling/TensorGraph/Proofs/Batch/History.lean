import TensorGraph.Proofs.Batch.BatchSize
import TensorGraph.Proofs.Batch.Repetition
import TensorGraph.Proofs.Operators.Elements

/-!
# Changes of the batch size, one after the other

Every change of the batch size relaxes anew, and takes the ratio of a reshape from the shapes at
that time. The element types of designated nodes and the types of parameters do not depend on the
changes before the last one. Nor do the types of the other designated nodes, if the new ratios scale
the batches as the old ones do (`Graph.sameTypes_of_setBatchSize`). A ratio that is not a whole
number may have been lost by rounding, though (`Graph.not_forall_sameTypes`).
-/

namespace TensorGraph

namespace Relaxation

open TensorGraph.Graph

variable {g g' g'' : Graph} {c c' : Candidate} {cs : List Candidate} {stem : String} {chain : Chain}
  {id : NodeId} {node node' : Node} {changed : Bool}

/-! ### What relaxing leaves of a graph -/

/-- While candidates are relaxed, every node stays, apart from its inputs behind the first one. -/
theorem Relaxations.exists_inputs (h : Relaxations cs g g') (hnode : g.node? id = some node) :
    ∃ inputs, g'.node? id = some { node with inputs } ∧ inputs[0]? = node.inputs[0]? := by
  induction h generalizing node with
  | nil => exact ⟨node.inputs, hnode, rfl⟩
  | @cons c cs stem chain g g₁ g' inputsLive reads step rest ih =>
    by_cases e : id = c.reshape
    · have changed := step.node?_reshape
      rw [← e, hnode, Option.map_some] at changed
      obtain ⟨inputs, hnode', first⟩ := ih changed
      exact ⟨inputs, hnode', first.trans (List.getElem?_set_ne (by decide))⟩
    · exact ih ((step.node?_old id (contains_of_node? hnode) e).trans hnode)

/-- Those of the other nodes stay as well. -/
theorem Relaxations.node?_of_not_mem (h : Relaxations cs g g') (hnode : g.node? id = some node)
    (other : id ∉ cs.map Candidate.reshape) : g'.node? id = some node := by
  induction h with
  | nil => exact hnode
  | @cons c cs stem chain g g₁ g' inputsLive reads step rest ih =>
    obtain ⟨here, later⟩ := not_or.1 (List.mem_cons.not.1 other)
    exact ih ((step.node?_old id (contains_of_node? hnode) here).trans hnode) later

/-- The graph consists of what remains of another one whose candidates have been relaxed. -/
def Remains (cs : List Candidate) (g g' : Graph) : Prop :=
  ∃ g₁, Relaxations cs g g₁ ∧ ∀ id, g'.contains id →
    (g'.node? id).map Node.bare = (g₁.node? id).map Node.bare

namespace Remains

theorem of_sameSkeleton (h : Remains cs g g') (same : g'.SameSkeleton g'') : Remains cs g g'' := by
  obtain ⟨g₁, relaxations, bare⟩ := h
  exact ⟨g₁, relaxations, fun id live =>
    (same.bare id).trans (bare id ((same.contains id).symm.trans live))⟩

theorem exists_inputs (h : Remains cs g g') (hnode : g.node? id = some node)
    (hnode' : g'.node? id = some node') :
    ∃ inputs, node'.bare = { node.bare with inputs } ∧ inputs[0]? = node.inputs[0]? := by
  obtain ⟨g₁, relaxations, bare⟩ := h
  obtain ⟨inputs, hnode₁, first⟩ := relaxations.exists_inputs hnode
  have same := bare id (contains_of_node? hnode')
  rw [hnode', hnode₁, Option.map_some, Option.map_some, Option.some.injEq] at same
  exact ⟨inputs, same, first⟩

theorem op_eq (h : Remains cs g g') (hnode : g.node? id = some node)
    (hnode' : g'.node? id = some node') : node'.op = node.op := by
  obtain ⟨inputs, bare, -⟩ := h.exists_inputs hnode hnode'
  have op := congrArg Node.op bare
  exact op

theorem bare_eq (h : Remains cs g g') (hnode : g.node? id = some node)
    (hnode' : g'.node? id = some node') (other : id ∉ cs.map Candidate.reshape) :
    node'.bare = node.bare := by
  obtain ⟨g₁, relaxations, bare⟩ := h
  have same := bare id (contains_of_node? hnode')
  rw [hnode', relaxations.node?_of_not_mem hnode other, Option.map_some, Option.map_some,
    Option.some.injEq] at same
  exact same

end Remains

/-- A target that is there works, as far as its nodes are in their places. -/
theorem Chain.stands_of_contains (inputsLive : g.InputsLive) (current : g.Current .core)
    (placed : ∀ planned ∈ c.plan stem chain, g.contains planned.1 →
      (g.node? planned.1).map Node.bare = some planned.2)
    (there : g.contains chain.target) : chain.Stands g c stem := by
  have reads : ∀ planned ∈ c.plan stem chain, g.contains planned.1 →
      ∀ o ∈ planned.2.inputs, g.contains o.node := by
    intro planned hplanned live o ho
    obtain ⟨node, hnode, bare⟩ := Option.map_eq_some_iff.1 (placed planned hplanned live)
    have inputs : node.inputs = planned.2.inputs :=
      (congrArg Node.inputs bare : node.bare.inputs = planned.2.inputs)
    obtain ⟨port, hread⟩ := exists_port_of_mem hnode (inputs ▸ ho)
    exact inputsLive planned.1 port o hread
  -- backwards from the last node, each of the others is read by a later one
  have live : ∀ planned ∈ c.plan stem chain, g.contains planned.1 := by
    simp only [Candidate.plan, List.forall_mem_cons, GraphM.constantNode, Node.bare, output]
      at reads
    obtain ⟨-, -, -, batch, number, -, scaled, -, ratio, rounded, modified, -, rest, target, -⟩ :=
      reads
    obtain ⟨liveModified, liveRest, -⟩ := target there
    obtain ⟨liveRounded, -⟩ := modified liveModified
    obtain ⟨-, liveIndices, liveAxis, -⟩ := rest liveRest
    obtain ⟨liveRatio, -⟩ := rounded liveRounded
    obtain ⟨liveScaled, liveInBatch, -⟩ := ratio liveRatio
    obtain ⟨liveNumber, liveOutBatch, -⟩ := scaled liveScaled
    obtain ⟨liveBatch, -⟩ := number liveNumber
    obtain ⟨liveShape, liveFirst, -⟩ := batch liveBatch
    simp [Candidate.plan, *]
  intro planned hplanned
  exact ⟨placed planned hplanned (live planned hplanned), current _ (live planned hplanned)⟩

/-- So does the target of every reshape that has been relaxed and is still there. -/
theorem Remains.exists_stands (h : Remains cs g g') (nodup : (cs.map Candidate.reshape).Nodup)
    (hc : c ∈ cs) (inputsLive : g'.InputsLive) (current : g'.Current .core)
    (hnode' : g'.node? c.reshape = some node') :
    ∃ stem, ∃ chain : Chain, chain.Stands g' c stem ∧ node'.op = "Reshape" ∧
      node'.inputs = [c.data, output chain.target] := by
  obtain ⟨g₁, relaxations, bare⟩ := h
  obtain ⟨stem, chain, installed⟩ := relaxations.exists_installed nodup hc
  obtain ⟨node, hnode, op, inputs⟩ := installed.reads
  have same := bare c.reshape (contains_of_node? hnode')
  rw [hnode', hnode, Option.map_some, Option.map_some, Option.some.injEq] at same
  have op' : node'.op = "Reshape" := (congrArg Node.op same : node'.bare.op = _).trans op
  have inputs' : node'.inputs = [c.data, output chain.target] :=
    (congrArg Node.inputs same : node'.bare.inputs = _).trans inputs
  refine ⟨stem, chain, ?_, op', inputs'⟩
  refine Chain.stands_of_contains inputsLive current (fun planned hplanned live => ?_) ?_
  · rw [bare planned.1 live, installed.planted planned hplanned]
  · exact inputsLive c.reshape 1 _ (by rw [input?_eq hnode', inputs']; rfl)

/-- A target that works goes on to work while others are relaxed, as long as it is there. -/
theorem Remains.stands (h : Remains cs g g') (fits : ∀ c ∈ cs, c.Fits g)
    (stands : chain.Stands g c stem) (inputsLive : g'.InputsLive) (current : g'.Current .core)
    (there : g'.contains chain.target) : chain.Stands g' c stem := by
  refine Chain.stands_of_contains inputsLive current (fun planned hplanned live => ?_) there
  obtain ⟨kept, hkept⟩ := contains_iff_exists_node?.1 live
  obtain ⟨placed, hplaced, bare⟩ := Option.map_eq_some_iff.1 (stands planned hplanned).planted
  rw [hkept, Option.map_some, h.bare_eq hplaced hkept, bare]
  -- none of its nodes is a reshape
  intro relaxed
  obtain ⟨c', hc', e⟩ := List.mem_map.1 relaxed
  obtain ⟨reshape, hreshape, opReshape, -⟩ := (fits c' hc').reshape
  obtain rfl := Option.some.inj (hplaced.symm.trans (e ▸ hreshape))
  have op : placed.op = planned.2.op := (congrArg Node.op bare : placed.bare.op = planned.2.op)
  exact (Candidate.op_of_mem_plan hplanned).2 (op.symm.trans opReshape)

/-- The original target is read in front of the new one. -/
theorem Chain.Stands.input?_rest (h : chain.Stands g c stem) :
    g.input? chain.rest 0 = some c.target := by
  simp only [Chain.Stands, Candidate.plan, List.forall_mem_cons] at h
  obtain ⟨-, -, -, -, -, -, -, -, -, -, -, -, gather, -⟩ := h
  obtain ⟨node, hnode, -, inputs, -⟩ := gather.computes.exists_node?
  rw [input?_eq hnode, inputs]
  rfl

theorem Chain.Stands.input?_target (h : chain.Stands g c stem) :
    g.input? chain.target 1 = some (output chain.rest) := by
  simp only [Chain.Stands, Candidate.plan, List.forall_mem_cons] at h
  obtain ⟨-, -, -, -, -, -, -, -, -, -, -, -, -, concat, -⟩ := h
  obtain ⟨node, hnode, -, inputs, -⟩ := concat.computes.exists_node?
  rw [input?_eq hnode, inputs]
  rfl

/-- What a reshape whose target has been relaxed is found to be is what it was before, apart from
the target and the two batches. -/
theorem Candidate.Fits.eq_of_stands (h : c'.Fits g) (stands : chain.Stands g c stem)
    (valid : g.Valid) (sameData : c'.data = c.data) (sameTarget : c'.target = output chain.target)
    (inBatch_pos : 0 < c.inBatch) (nonempty : 0 < c.length) :
    c'.element = c.element ∧ c'.length = c.length ∧ (c.element = .i64 ∨ c.element = .i32) := by
  obtain ⟨original, horiginal⟩ := valid.inputs_exist _ _ _ stands.input?_rest
  obtain ⟨data, dims, hdata, rows⟩ := h.data
  obtain ⟨slot, t, rest, hslot, value, integers, length, element⟩ := h.target
  rw [sameData] at hdata
  rw [sameTarget] at hslot
  obtain ⟨slot', hslot', sameElement, -⟩ := stands.exists_target hdata horiginal
  obtain rfl := Except.ok.inj (hslot.symm.trans hslot')
  have integer := stands.element_eq hdata horiginal hslot value integers
  obtain ⟨-, ⟨n, dims', shape⟩, -⟩ := stands.exists_joined hdata horiginal hslot value
  obtain rfl : c'.inBatch = n := by
    have first := rows.symm.trans shape
    simp only [Shape.ofExtents, List.map_cons, Shape.ranked.injEq, List.cons.injEq,
      Dim.fixed.injEq] at first
    exact first.1
  obtain ⟨p, rfl, -, count, -⟩ :=
    stands.withHead_eq hdata shape inBatch_pos horiginal hslot value integer
  have entries : p.length = rest.length + 1 := TensorData.length_of_integers? integers
  exact ⟨element.trans sameElement, by omega, integer⟩

/-- A run on a graph in which nothing is stale. -/
theorem remains_of_run (fresh : g.hasStale = false) (wired : g.Wired)
    (run : (relaxation.run ⟨.core, true⟩).runOn g = (.ok changed, g')) :
    ∃ cs, candidates g = .ok cs ∧ Remains cs g g' ∧ g'.Mirrored := by
  have steady : (GraphM.inferStale .core).runOn g = (.ok 0, g) := runOn_inferStale_of_fresh fresh
  obtain ⟨n, g₀, g₁, inferred, passed, tidied⟩ := Pipeline.runOn_of_pass run
  obtain ⟨-, rfl⟩ := Prod.mk.inj (steady.symm.trans inferred)
  obtain ⟨n', g₀', cs, inferred', found, relaxed, -⟩ := runOn_relaxBatches_eq_ok_iff.1 passed
  obtain ⟨-, rfl⟩ := Prod.mk.inj (steady.symm.trans inferred')
  obtain ⟨fits, nodup⟩ := fits_of_candidates found
  have relaxations :=
    relaxations_of_forM wired.inputs_live (fun c hc => (fits c hc).reshape) nodup relaxed
  have wired₁ := relaxations.wired wired
  refine ⟨cs, found, ?_⟩
  split at tidied
  · obtain ⟨valid, k, last⟩ := Pipeline.runOn_tidy_eq_ok_iff.1 tidied
    have same := GraphM.sameSkeleton_of_inferStale last
    refine ⟨⟨g₁, relaxations, fun id live => ?_⟩,
      (wired₁.toMirrored.foldl_vacate g₁.dead).of_sameLinks same.sameLinks⟩
    obtain ⟨node, hnode⟩ := contains_iff_exists_node?.1 ((same.contains id).symm.trans live)
    rw [same.bare, hnode, node?_of_node?_collect hnode]
  · obtain rfl := tidied
    exact ⟨⟨g', relaxations, fun _ _ => rfl⟩, wired₁.toMirrored⟩

end Relaxation

namespace Graph

open Relaxation

variable {batch a b : Nat} {g g₀ g' gₐ gᵦ : Graph} {changed relaxed relaxed' relaxed'' : Bool}
  {id : NodeId} {node node' : Node} {c c' : Candidate} {cs cs' : List Candidate}

/-- A valid graph in which nothing is stale and every node is in step. -/
structure UpToDate (g : Graph) : Prop where
  valid : g.validate = .ok ()
  mirrored : g.Mirrored
  fresh : g.hasStale = false
  current : g.Current .core

theorem UpToDate.wired (h : g.UpToDate) : g.Wired :=
  (validate_eq_ok_iff.1 h.valid).wired h.mirrored

/-- Inference of all nodes of a valid graph brings it up to date. -/
theorem upToDate_of_inferAll (valid : g.validate = .ok ()) (mirrored : g.Mirrored)
    (inferred : (GraphM.inferAll .core).runOn g₀ = (.ok changed, g)) : g.UpToDate := by
  have acyclic := (validate_eq_ok_iff.1 valid).acyclic
  obtain ⟨n, inferred'⟩ := GraphM.exists_inferStale_of_inferAll inferred
  have same := GraphM.sameSkeleton_of_inferStale inferred'
  exact ⟨valid, mirrored,
    hasStale_eq_false_iff.2 (isStale_eq_false_of_inferStale (same.isCyclic.1 acyclic) inferred'),
    current_of_inferAll Registry.steady_core inferred acyclic mirrored⟩

/-- A change of the batch size, on which only the outputs of the nodes depend. -/
theorem sameSkeleton_of_setBatchSize
    (run : (GraphM.setBatchSize .core batch).runOn g = (.ok relaxed, g')) :
    ∃ g₁, (relaxation.run ⟨.core, true⟩).runOn g = (.ok relaxed, g₁) ∧ g₁.SameSkeleton g' := by
  obtain ⟨_, g₁, g₂, n, prepared, resized, inferred, -⟩ := runOn_setBatchSize_eq_ok_iff.1 run
  exact ⟨g₁, prepared, (resized_of_forM .core resized).same.trans
    (GraphM.sameSkeleton_of_inferStale inferred)⟩

/-- One up-to-date graph has become of another by a change that relaxes the candidates. -/
structure Adapted (cs : List Candidate) (g g' : Graph) : Prop where
  before : g.UpToDate
  after : g'.UpToDate
  found : candidates g = .ok cs
  remains : Remains cs g g'

/-- A change of the batch size leaves an up-to-date graph up to date. -/
theorem UpToDate.setBatchSize (h : g.UpToDate)
    (run : (GraphM.setBatchSize .core batch).runOn g = (.ok relaxed, g')) :
    g.Rebatched batch g' ∧ ∃ cs, Adapted cs g g' := by
  have settled : g.Settled .core := by
    intro id node hnode _ _
    obtain ⟨node', hnode', inferred⟩ := h.current id (contains_of_node? hnode)
    obtain rfl := Option.some.inj (hnode.symm.trans hnode')
    exact inferred
  have seamed := (alert_of_fresh (hasStale_eq_false_iff.1 h.fresh)).seamed h.mirrored settled
  have rebatched := rebatched_of_seamed seamed h.wired (fun id node hnode op _ =>
    (h.current id (contains_of_node? hnode)).declares hnode op) run
  obtain ⟨g₁, prepared, same⟩ := sameSkeleton_of_setBatchSize run
  obtain ⟨cs, found, remains, mirrored⟩ := remains_of_run h.fresh h.wired prepared
  exact ⟨rebatched, cs, h, ⟨rebatched.valid, mirrored.of_sameLinks same.sameLinks,
    rebatched.fresh, rebatched.current⟩, found, remains.of_sameSkeleton same⟩

/-! ### Two changes and one -/

/-- A reshape that is relaxed a second time scales the batch that its data have in the graph as it
did when it had been relaxed once. The length of its target is within the range of 64 bits. -/
structure Renewed (g : Graph) (c c' : Candidate) : Prop where
  reshape : c'.reshape = c.reshape
  length_lt : c.length < 2 ^ 63
  scaled : ∀ slot n dims, g.slot c.data = .ok slot → slot.shape = .ofExtents (n :: dims) →
    c'.targetBatch n = c.targetBatch n

/-- In the end the new target of a reshape that is relaxed a second time is the one that it
replaces, which does not depend on the reshape. -/
theorem Renewed.exists_targets (renewed : Renewed g' c c') (first : Adapted cs g gₐ)
    (second : Adapted cs' gₐ g') (hc : c ∈ cs) (hc' : c' ∈ cs')
    (hnode : gₐ.node? c.reshape = some node) (hnode' : g'.node? c.reshape = some node') :
    ∃ old new, node.op = "Reshape" ∧ node.inputs = [c.data, old] ∧ node'.inputs = [c.data, new] ∧
      g'.slot new = g'.slot old ∧ ∀ rank : NodeId → Nat,
        (∀ id port o, g'.input? id port = some o → rank o.node < rank id) →
          rank old.node < rank c.reshape := by
  have valid := validate_eq_ok_iff.1 first.after.valid
  have valid' := validate_eq_ok_iff.1 second.after.valid
  obtain ⟨fits, nodup⟩ := fits_of_candidates first.found
  obtain ⟨fits', nodup'⟩ := fits_of_candidates second.found
  obtain ⟨stem, chain, stands, op, inputs⟩ :=
    first.remains.exists_stands nodup hc valid.inputsLive first.after.current hnode
  obtain ⟨stem', chain', again, -, inputs'⟩ := second.remains.exists_stands nodup' hc'
    valid'.inputsLive second.after.current (renewed.reshape ▸ hnode')
  -- what the second relaxation finds is what the first one has left
  obtain ⟨found, hfound, -, reads⟩ := (fits' c' hc').reshape
  obtain rfl := Option.some.inj (hfound.symm.trans (renewed.reshape ▸ hnode))
  obtain ⟨sameData, sameTarget⟩ : c'.data = c.data ∧ c'.target = output chain.target := by
    simpa using reads.symm.trans inputs
  obtain ⟨_, _, _, _, _, _, length, -⟩ := (fits c hc).target
  obtain ⟨element, sameLength, integer⟩ := (fits' c' hc').eq_of_stands stands valid sameData
    sameTarget (fits c hc).inBatch_pos (by omega)
  -- and what it puts in front of the reshape reads that
  have readsOld : g'.input? chain'.rest 0 = some (output chain.target) :=
    sameTarget ▸ again.input?_rest
  have standsStill : chain.Stands g' c stem := second.remains.stands fits' stands
    valid'.inputsLive second.after.current (valid'.inputsLive _ _ _ readsOld)
  have readsNew : g'.input? c.reshape 1 = some (output chain'.target) := by
    rw [input?_eq hnode', inputs']
    rfl
  have joins : g'.input? chain'.target 1 = some (output chain'.rest) := again.input?_target
  obtain ⟨data, hdata⟩ := valid'.inputs_exist c.reshape 0 c.data (by
    rw [input?_eq hnode', inputs', sameData]
    rfl)
  obtain ⟨original, horiginal⟩ := valid'.inputs_exist _ _ _ standsStill.input?_rest
  refine ⟨_, _, op, inputs, sameData ▸ inputs', ?_, fun rank up => ?_⟩
  · exact standsStill.slot_target_eq again sameData sameTarget element sameLength integer
      (by omega) renewed.length_lt (fits c hc).inBatch_pos (fits' c' hc').inBatch_pos hdata
      horiginal fun n dims shape => renewed.scaled data n dims hdata shape
  · have below := up _ _ _ readsOld
    have middle := up _ _ _ joins
    have above := up _ _ _ readsNew
    exact below.trans (middle.trans above)

/-! ### The direct way and a detour -/

/-- A change of the batch size to `b`, once by way of a change to `a` and once directly. -/
structure Detour (a b : Nat) (cs cs' : List Candidate) (g gₐ g' gᵦ : Graph) : Prop where
  first : g.Rebatched a gₐ
  second : gₐ.Rebatched b g'
  direct : g.Rebatched b gᵦ
  firstAdapted : Adapted cs g gₐ
  secondAdapted : Adapted cs' gₐ g'
  directAdapted : Adapted cs g gᵦ
  bare : ∀ id, (gₐ.node? id).map Node.bare = (gᵦ.node? id).map Node.bare

/-- The two changes of `g` relax alike. -/
theorem UpToDate.exists_detour (h : g.UpToDate)
    (first : (GraphM.setBatchSize .core a).runOn g = (.ok relaxed, gₐ))
    (second : (GraphM.setBatchSize .core b).runOn gₐ = (.ok relaxed', g'))
    (direct : (GraphM.setBatchSize .core b).runOn g = (.ok relaxed'', gᵦ)) :
    ∃ cs cs', Detour a b cs cs' g gₐ g' gᵦ := by
  obtain ⟨firstRebatched, cs, firstAdapted⟩ := h.setBatchSize first
  obtain ⟨secondRebatched, cs', secondAdapted⟩ := firstAdapted.after.setBatchSize second
  obtain ⟨directRebatched, cs₁, directAdapted⟩ := h.setBatchSize direct
  obtain rfl := Except.ok.inj (firstAdapted.found.symm.trans directAdapted.found)
  obtain ⟨g₁, prepared, same⟩ := sameSkeleton_of_setBatchSize first
  obtain ⟨g₁', prepared', same'⟩ := sameSkeleton_of_setBatchSize direct
  obtain rfl : g₁ = g₁' := congrArg Prod.snd (prepared.symm.trans prepared')
  exact ⟨cs, cs', firstRebatched, secondRebatched, directRebatched, firstAdapted, secondAdapted,
    directAdapted, fun id => (same.bare id).trans (same'.bare id).symm⟩

namespace Detour

variable (h : Detour a b cs cs' g gₐ g' gᵦ)
include h

/-- What a node reads is of lower rank. -/
theorem exists_rank : ∃ rank : NodeId → Nat,
    ∀ id port o, g'.input? id port = some o → rank o.node < rank id := by
  have valid := validate_eq_ok_iff.1 h.secondAdapted.after.valid
  obtain ⟨rank, up⟩ := isCyclic_eq_false_iff.1 valid.acyclic
  refine ⟨rank, fun id port o hread => ?_⟩
  exact up ⟨o.node, id, port⟩ ((h.secondAdapted.after.mirrored.mem_edges _).2
    ⟨valid.inputsLive id port o hread, by rw [hread, Option.map_some]⟩)

theorem exists_bare (hnode' : gᵦ.node? id = some node') :
    ∃ nodeₐ, gₐ.node? id = some nodeₐ ∧ nodeₐ.bare = node'.bare :=
  Option.map_eq_some_iff.1 ((h.bare id).trans (by rw [hnode', Option.map_some]))

/-- Both ways a node is the same, apart from its outputs and its inputs behind the first one. -/
theorem exists_inputs (hnode : g'.node? id = some node) (hnode' : gᵦ.node? id = some node') :
    (∃ inputs, node.bare = { node'.bare with inputs }) ∧ g'.input? id 0 = gᵦ.input? id 0 := by
  obtain ⟨nodeₐ, hnodeₐ, bare⟩ := h.exists_bare hnode'
  obtain ⟨inputs, same, first⟩ := h.secondAdapted.remains.exists_inputs hnodeₐ hnode
  have reads : node.inputs = inputs := congrArg Node.inputs same
  have reads' : nodeₐ.inputs = node'.inputs :=
    (congrArg Node.inputs bare : nodeₐ.bare.inputs = node'.bare.inputs)
  rw [bare] at same
  exact ⟨⟨inputs, same⟩, by rw [input?_eq hnode, input?_eq hnode', reads, first, reads']⟩

theorem op_eq (hnode : g'.node? id = some node) (hnode' : gᵦ.node? id = some node') :
    node.op = node'.op := by
  obtain ⟨⟨inputs, bare⟩, -⟩ := h.exists_inputs hnode hnode'
  have op := congrArg Node.op bare
  exact op

/-- Both ways a parameter has the same outputs. -/
theorem outputs_parameter_eq (hnode : g'.node? id = some node) (hnode' : gᵦ.node? id = some node')
    (op : node.op = "Parameter") : node.outputs = node'.outputs := by
  have op' : node'.op = "Parameter" := (h.op_eq hnode hnode').symm.trans op
  by_cases designated : id ∈ g.parameters
  · obtain ⟨declared, hdeclared⟩ := contains_iff_exists_node?.1
      ((validate_eq_ok_iff.1 h.firstAdapted.before.valid).parameters_live id designated)
    have opDeclared : declared.op = "Parameter" :=
      (h.directAdapted.remains.op_eq hdeclared hnode').symm.trans op'
    have once := h.first.resized id designated declared hdeclared opDeclared
    have twice := h.second.resized id (h.first.parameters ▸ designated) _ once opDeclared
    rw [Node.rebatched_rebatched] at twice
    have only := h.direct.resized id designated declared hdeclared opDeclared
    rw [Option.some.inj (hnode.symm.trans twice), Option.some.inj (hnode'.symm.trans only)]
  · have before := h.second.kept id node (h.first.parameters ▸ designated) hnode op
    have declared := h.first.kept id node designated before op
    have declared' := h.direct.kept id node' designated hnode' op'
    rw [Option.some.inj (declared.symm.trans declared')]

/-- Both ways the outputs of a node have the same element types. -/
theorem elements_eq (hnode : g'.node? id = some node) (hnode' : gᵦ.node? id = some node') :
    node.outputs.map (·.element) = node'.outputs.map (·.element) := by
  obtain ⟨rank, up⟩ := h.exists_rank
  -- by induction on the rank
  induction e : rank id using Nat.strongRecOn generalizing id node node' with
  | _ n ih =>
    by_cases op : node.op = "Parameter"
    · rw [h.outputs_parameter_eq hnode hnode' op]
    · obtain ⟨bare, first⟩ := h.exists_inputs hnode hnode'
      refine InStep.elements_eq (h.direct.current id (contains_of_node? hnode'))
        (h.second.current id (contains_of_node? hnode)) hnode' hnode
        ((h.op_eq hnode hnode').symm ▸ op) bare fun o o' slot' slot hread' hread hslot' hslot => ?_
      obtain rfl : o' = o := Option.some.inj (hread.symm.trans (first.trans hread'))
      obtain ⟨source, hsource, hout⟩ := slot_eq_ok_iff.1 hslot
      obtain ⟨source', hsource', hout'⟩ := slot_eq_ok_iff.1 hslot'
      have same := congrArg (·[o'.slot]?) (ih _ (e ▸ up id 0 o' hread) hsource hsource' rfl)
      simpa [hout, hout'] using same

/-- A reshape that is relaxed a second time and scales its batch as it did has the same outputs both
ways, if what is of lower rank has. -/
theorem outputs_reshape_eq (renewed : Renewed g' c c') (hc : c ∈ cs) (hc' : c' ∈ cs')
    (hnode : g'.node? c.reshape = some node) (hnode' : gᵦ.node? c.reshape = some node')
    {rank : NodeId → Nat} (up : ∀ id port o, g'.input? id port = some o → rank o.node < rank id)
    (lower : ∀ o, rank o.node < rank c.reshape → (∃ slot, g'.slot o = .ok slot) →
      (∃ slot, gᵦ.slot o = .ok slot) → g'.slot o = gᵦ.slot o) : node.outputs = node'.outputs := by
  have valid := validate_eq_ok_iff.1 h.second.valid
  have valid' := validate_eq_ok_iff.1 h.direct.valid
  obtain ⟨nodeₐ, hnodeₐ, bareₐ⟩ := h.exists_bare hnode'
  obtain ⟨target, new, op, inputs, inputsNew, sameTarget, below⟩ :=
    renewed.exists_targets h.firstAdapted h.secondAdapted hc hc' hnodeₐ hnode
  have op' : node'.op = "Reshape" := by
    rw [← op]
    exact (congrArg Node.op bareₐ : nodeₐ.bare.op = node'.bare.op).symm
  have inputs' : node'.inputs = [c.data, target] := by
    rw [← inputs]
    exact (congrArg Node.inputs bareₐ : nodeₐ.bare.inputs = node'.bare.inputs).symm
  have readsData : g'.input? c.reshape 0 = some c.data := by
    rw [input?_eq hnode, inputsNew]
    rfl
  have readsNew : g'.input? c.reshape 1 = some new := by
    rw [input?_eq hnode, inputsNew]
    rfl
  have sameData : g'.slot c.data = gᵦ.slot c.data :=
    lower _ (up _ _ _ readsData) (valid.inputs_exist _ _ _ readsData)
      (valid'.inputs_exist c.reshape 0 _ (by rw [input?_eq hnode', inputs']; rfl))
  have sameOld : g'.slot target = gᵦ.slot target :=
    lower _ (below rank up) (sameTarget ▸ valid.inputs_exist _ _ _ readsNew)
      (valid'.inputs_exist c.reshape 1 _ (by rw [input?_eq hnode', inputs']; rfl))
  obtain ⟨inputs₁, bare, -⟩ := h.secondAdapted.remains.exists_inputs hnodeₐ hnode
  obtain rfl : node.inputs = inputs₁ := congrArg Node.inputs bare
  refine (h.direct.current _ (contains_of_node? hnode')).outputs_reshape_eq
    (h.second.current _ (contains_of_node? hnode)) hnode' hnode op' (bareₐ ▸ bare) ?_
  simp only [inputsNew, inputs', List.map_cons, List.map_nil, sameData, sameTarget, sameOld]

/-- If every reshape that the second change relaxes is one that the first has relaxed, and scales
its batch as it did, then both ways a node has the same outputs. -/
theorem outputs_eq (renewed : ∀ c' ∈ cs', ∃ c ∈ cs, Renewed g' c c')
    (hnode : g'.node? id = some node) (hnode' : gᵦ.node? id = some node') :
    node.outputs = node'.outputs := by
  have valid := validate_eq_ok_iff.1 h.second.valid
  have valid' := validate_eq_ok_iff.1 h.direct.valid
  obtain ⟨rank, up⟩ := h.exists_rank
  -- by induction on the rank
  induction e : rank id using Nat.strongRecOn generalizing id node node' with
  | _ n ih =>
    have lower (o : Output) (below : rank o.node < n) (computed : ∃ slot, g'.slot o = .ok slot)
        (computed' : ∃ slot, gᵦ.slot o = .ok slot) : g'.slot o = gᵦ.slot o := by
      obtain ⟨slot, hslot⟩ := computed
      obtain ⟨slot', hslot'⟩ := computed'
      obtain ⟨source, hsource, hout⟩ := slot_eq_ok_iff.1 hslot
      obtain ⟨source', hsource', hout'⟩ := slot_eq_ok_iff.1 hslot'
      rw [ih _ below hsource hsource' rfl, hout'] at hout
      rw [hslot, hslot', Option.some.inj hout]
    by_cases again : id ∈ cs'.map Candidate.reshape
    · obtain ⟨c', hc', rfl⟩ := List.mem_map.1 again
      obtain ⟨c, hc, renewed⟩ := renewed c' hc'
      rw [renewed.reshape] at hnode hnode' e
      exact h.outputs_reshape_eq renewed hc hc' hnode hnode' up (e ▸ lower)
    · by_cases op : node.op = "Parameter"
      · exact h.outputs_parameter_eq hnode hnode' op
      · obtain ⟨nodeₐ, hnodeₐ, bareₐ⟩ := h.exists_bare hnode'
        have bare : node.bare = node'.bare :=
          (h.secondAdapted.remains.bare_eq hnodeₐ hnode again).trans bareₐ
        refine (h.direct.current id (contains_of_node? hnode')).outputs_eq
          (h.second.current id (contains_of_node? hnode)) hnode' hnode
          ((h.op_eq hnode hnode').symm ▸ op) bare fun o ho => ?_
        obtain ⟨port', hread'⟩ := exists_port_of_mem hnode' ho
        have reads : node.inputs = node'.inputs :=
          (congrArg Node.inputs bare : node.bare.inputs = node'.bare.inputs)
        have hread : g'.input? id port' = some o := by
          rw [input?_eq hnode, reads, ← input?_eq hnode', hread']
        exact lower o (e ▸ up _ _ _ hread) (valid.inputs_exist _ _ _ hread)
          (valid'.inputs_exist _ _ _ hread')

end Detour

/-! ### The boundary -/

/-- Both graphs designate the same parameters and results, which are there in both of them. -/
structure SameDesignation (g g' : Graph) : Prop where
  parameters : g'.parameters = g.parameters
  results : g'.results = g.results
  live : ∀ id ∈ g.parameters ++ g.results, g.contains id ∧ g'.contains id

theorem Detour.sameDesignation (h : Detour a b cs cs' g gₐ g' gᵦ) : gᵦ.SameDesignation g' := by
  have live {g : Graph} {id : NodeId} (valid : g.validate = .ok ())
      (hid : id ∈ g.parameters ++ g.results) : g.contains id := by
    have valid := validate_eq_ok_iff.1 valid
    rcases List.mem_append.1 hid with hid | hid
    · exact valid.parameters_live id hid
    · exact valid.results_live id hid
  have parameters : g'.parameters = gᵦ.parameters := by
    rw [h.second.parameters, h.first.parameters, h.direct.parameters]
  have results : g'.results = gᵦ.results := by
    rw [h.second.results, h.first.results, h.direct.results]
  refine ⟨parameters, results, fun id hid => ⟨live h.direct.valid hid, live h.second.valid ?_⟩⟩
  rw [parameters, results]
  exact hid

/-- The designated nodes have the same element types in both graphs. If they are parameters, they
have the same outputs. -/
structure SameElements (g g' : Graph) : Prop extends SameDesignation g g' where
  elements : ∀ id ∈ g.parameters ++ g.results,
    (g'.node? id).map (·.outputs.map (·.element)) = (g.node? id).map (·.outputs.map (·.element))
  declared : ∀ id ∈ g.parameters, ∀ node, g.node? id = some node → node.op = "Parameter" →
    (g'.node? id).map Node.outputs = some node.outputs

/-- The designated nodes have the same types in both graphs. -/
structure SameTypes (g g' : Graph) : Prop extends SameDesignation g g' where
  types : ∀ id ∈ g.parameters ++ g.results,
    (g'.node? id).map (·.outputs.map Slot.toSlotType) =
      (g.node? id).map (·.outputs.map Slot.toSlotType)

/-- Of two changes of the batch size in a row, from `g` to `gₐ` and on to `g'`, the second one
relaxes no reshape that the first has not relaxed, and every ratio scales the batch in the end as
the old one does. -/
def KeepsRatios (g gₐ g' : Graph) : Prop :=
  ∃ cs cs', candidates g = .ok cs ∧ candidates gₐ = .ok cs' ∧ ∀ c' ∈ cs', ∃ c ∈ cs, Renewed g' c c'

/-- After two changes of the batch size the designated nodes have the element types, and parameters
the types, that they have after the second change alone. If the ratios are kept, then all of them
have the types that they have after the second change alone. -/
theorem sameTypes_of_setBatchSize (upToDate : g.UpToDate)
    (first : (GraphM.setBatchSize .core a).runOn g = (.ok relaxed, gₐ))
    (second : (GraphM.setBatchSize .core b).runOn gₐ = (.ok relaxed', g'))
    (direct : (GraphM.setBatchSize .core b).runOn g = (.ok relaxed'', gᵦ)) :
    gᵦ.SameElements g' ∧ (KeepsRatios g gₐ g' → gᵦ.SameTypes g') := by
  obtain ⟨cs, cs', detour⟩ := upToDate.exists_detour first second direct
  have designation := detour.sameDesignation
  -- a designated node is there both ways
  have exists_nodes {id : NodeId} (hid : id ∈ gᵦ.parameters ++ gᵦ.results) :
      ∃ node node', g'.node? id = some node ∧ gᵦ.node? id = some node' := by
    obtain ⟨live', live⟩ := designation.live id hid
    obtain ⟨node, hnode⟩ := contains_iff_exists_node?.1 live
    obtain ⟨node', hnode'⟩ := contains_iff_exists_node?.1 live'
    exact ⟨node, node', hnode, hnode'⟩
  refine ⟨⟨designation, fun id hid => ?_, fun id hid node' hnode' op => ?_⟩, ?_⟩
  · obtain ⟨node, node', hnode, hnode'⟩ := exists_nodes hid
    rw [hnode, hnode', Option.map_some, Option.map_some, detour.elements_eq hnode hnode']
  · obtain ⟨node, _, hnode, -⟩ := exists_nodes (List.mem_append_left _ hid)
    rw [hnode, Option.map_some,
      detour.outputs_parameter_eq hnode hnode' ((detour.op_eq hnode hnode').trans op)]
  · rintro ⟨_, _, found, foundAgain, renewed⟩
    obtain rfl := Except.ok.inj (found.symm.trans detour.firstAdapted.found)
    obtain rfl := Except.ok.inj (foundAgain.symm.trans detour.secondAdapted.found)
    refine ⟨designation, fun id hid => ?_⟩
    obtain ⟨node, node', hnode, hnode'⟩ := exists_nodes hid
    rw [hnode, hnode', Option.map_some, Option.map_some, detour.outputs_eq renewed hnode hnode']

theorem exists_sameTypes_fixedBatch : ∃ gₐ g' gᵦ,
    (GraphM.setBatchSize .core 5).runOn fixedBatch = (.ok true, gₐ) ∧
    (GraphM.setBatchSize .core 3).runOn gₐ = (.ok true, g') ∧
    (GraphM.setBatchSize .core 3).runOn fixedBatch = (.ok true, gᵦ) ∧
    KeepsRatios fixedBatch gₐ g' ∧ gᵦ.SameElements g' ∧ gᵦ.SameTypes g' := by
  have inferred : (GraphM.inferAll .core).runOn fixedBatch = (.ok false, fixedBatch) := by
    decide +kernel
  have upToDate := upToDate_of_inferAll (by decide +kernel) (by decide +kernel) inferred
  have outcome : GraphM.outcome? (·.slot ⟨0, 0⟩)
      (do
        let relaxed ← GraphM.setBatchSize .core 5
        let found ← GraphM.ask candidates
        let relaxed' ← GraphM.setBatchSize .core 3
        pure (relaxed, found, relaxed')) fixedBatch =
      some ((true, [⟨2, ⟨0, 0⟩, ⟨17, 0⟩, .i64, 2, 5, 10⟩], true),
        .ok ⟨⟨.f32, .ofExtents [3, 3, 4]⟩, none⟩) := by
    decide +kernel
  obtain ⟨_, outcome, data⟩ := GraphM.outcome?_eq_some_iff.1 outcome
  simp only [GraphM.runOn_bind_eq_ok_iff, GraphM.runOn_ask_eq_ok_iff, GraphM.runOn_pure_eq_ok_iff,
    Prod.mk.injEq] at outcome
  obtain ⟨_, gₐ, first, _, _, ⟨found, rfl⟩, _, g', second, ⟨rfl, rfl, rfl⟩, rfl⟩ := outcome
  have answer : ((GraphM.setBatchSize .core 3).runOn fixedBatch).1 = .ok true := by decide +kernel
  have direct := GraphM.eq_ok_of_fst_eq answer
  have renewed : Renewed g' ⟨2, ⟨0, 0⟩, ⟨1, 0⟩, .i64, 2, 2, 4⟩
      ⟨2, ⟨0, 0⟩, ⟨17, 0⟩, .i64, 2, 5, 10⟩ := by
    refine ⟨rfl, by decide, fun slot n dims hslot shape => ?_⟩
    obtain rfl := Except.ok.inj (data.symm.trans hslot)
    simp only [Shape.ofExtents, List.map_cons, Shape.ranked.injEq, List.cons.injEq,
      Dim.fixed.injEq] at shape
    obtain ⟨rfl, -⟩ := shape
    decide +kernel
  have kept : KeepsRatios fixedBatch gₐ g' :=
    ⟨_, _, candidates_fixedBatch, found, by simpa using renewed⟩
  obtain ⟨elements, types⟩ := sameTypes_of_setBatchSize upToDate first second direct
  exact ⟨gₐ, g', _, first, second, direct, kept, elements, types kept⟩

/-! ### Ratios that are not kept -/

/-- A graph with a reshape that makes six rows of four: `[4, 12]` becomes `[6, 8]`. -/
def unevenRows : Graph :=
  (Graph.empty "f").after .core
    [.addParameter "x" ⟨.f32, .ofExtents [4, 12]⟩, .addConstant (.ofInts [6, -1]),
      .makeNode { op := "Reshape", inputs := [⟨0, 0⟩, ⟨1, 0⟩] }, .addResult ⟨2, 0⟩, .inferStale]

/-- The types of node 3, which is the result in these examples. -/
def resultTypes (g : Graph) : Option (List SlotType) :=
  (g.node? 3).map (·.outputs.map Slot.toSlotType)

/-- The result has other types after the detour than it has directly. -/
theorem exists_not_sameTypes {types types' : Option (List SlotType)}
    (detour : GraphM.outcome? resultTypes
      (GraphM.setBatchSize .core a >>= fun _ => GraphM.setBatchSize .core b) g =
        some (relaxed', types))
    (direct : GraphM.outcome? (fun g => (g.results, g.resultTypes)) (GraphM.setBatchSize .core b) g =
      some (relaxed'', [3], types')) (differ : types ≠ types') :
    ∃ gₐ g' gᵦ relaxed, (GraphM.setBatchSize .core a).runOn g = (.ok relaxed, gₐ) ∧
      (GraphM.setBatchSize .core b).runOn gₐ = (.ok relaxed', g') ∧
      (GraphM.setBatchSize .core b).runOn g = (.ok relaxed'', gᵦ) ∧ ¬gᵦ.SameTypes g' := by
  obtain ⟨g', twice, rfl⟩ := GraphM.outcome?_eq_some_iff.1 detour
  obtain ⟨relaxed, gₐ, first, second⟩ := GraphM.runOn_bind_eq_ok_iff.1 twice
  obtain ⟨gᵦ, once, view⟩ := GraphM.outcome?_eq_some_iff.1 direct
  obtain ⟨results, rfl⟩ := Prod.mk.inj view
  exact ⟨gₐ, g', gᵦ, relaxed, first, second, once, fun same =>
    differ (same.types 3 (by simp [results]))⟩

/-- After a change of the batch to 1 and back the reshape makes eight rows, since it has made two of
one row, not one and a half. -/
theorem not_forall_sameTypes :
    ¬∀ (g gₐ g' gᵦ : Graph) (a b : Nat) (relaxed relaxed' relaxed'' : Bool), g.UpToDate → 1 ≤ a →
      1 ≤ b → (GraphM.setBatchSize .core a).runOn g = (.ok relaxed, gₐ) →
      (GraphM.setBatchSize .core b).runOn gₐ = (.ok relaxed', g') →
      (GraphM.setBatchSize .core b).runOn g = (.ok relaxed'', gᵦ) → gᵦ.SameTypes g' := by
  intro always
  have inferred : (GraphM.inferAll .core).runOn unevenRows = (.ok false, unevenRows) := by
    decide +kernel
  have upToDate := upToDate_of_inferAll (by decide +kernel) (by decide +kernel) inferred
  have detour : GraphM.outcome? resultTypes
      (GraphM.setBatchSize .core 1 >>= fun _ => GraphM.setBatchSize .core 4) unevenRows =
      some (true, some [⟨.f32, .ofExtents [8, 6]⟩]) := by
    decide +kernel
  have direct : GraphM.outcome? (fun g => (g.results, g.resultTypes))
      (GraphM.setBatchSize .core 4) unevenRows =
      some (true, [3], some [⟨.f32, .ofExtents [6, 8]⟩]) := by
    decide +kernel
  obtain ⟨gₐ, g', gᵦ, relaxed, first, second, direct, differ⟩ :=
    exists_not_sameTypes detour direct (by decide)
  exact differ (always unevenRows gₐ g' gᵦ 1 4 relaxed true true upToDate (by decide) (by decide)
    first second direct)

/-- A graph with a reshape of a batch that is not known. -/
def unknownRows : Graph :=
  (Graph.empty "f").after .core
    [.addParameter "x" ⟨.f32, .ranked [.dynamic, .fixed 12]⟩, .addConstant (.ofInts [2, -1]),
      .makeNode { op := "Reshape", inputs := [⟨0, 0⟩, ⟨1, 0⟩] }, .addResult ⟨2, 0⟩, .inferStale]

/-- It is not enough that the ratios of the reshapes that both changes relax are kept. The batch
becomes known by the first change, and then the second one relaxes. -/
theorem not_forall_sameTypes_of_common :
    ¬∀ (g gₐ g' gᵦ : Graph) (a b : Nat) (relaxed relaxed' relaxed'' : Bool), g.UpToDate → 1 ≤ a →
      1 ≤ b → (GraphM.setBatchSize .core a).runOn g = (.ok relaxed, gₐ) →
      (GraphM.setBatchSize .core b).runOn gₐ = (.ok relaxed', g') →
      (GraphM.setBatchSize .core b).runOn g = (.ok relaxed'', gᵦ) →
      (∀ cs cs', candidates g = .ok cs → candidates gₐ = .ok cs' → ∀ c ∈ cs, ∀ c' ∈ cs',
        c'.reshape = c.reshape → Renewed g' c c') → gᵦ.SameTypes g' := by
  intro always
  have inferred : (GraphM.inferAll .core).runOn unknownRows = (.ok false, unknownRows) := by
    decide +kernel
  have upToDate := upToDate_of_inferAll (by decide +kernel) (by decide +kernel) inferred
  have unrelaxed : candidates unknownRows = .ok [] := by decide +kernel
  have detour : GraphM.outcome? resultTypes
      (GraphM.setBatchSize .core 1 >>= fun _ => GraphM.setBatchSize .core 2) unknownRows =
      some (true, some [⟨.f32, .ofExtents [4, 6]⟩]) := by
    decide +kernel
  have direct : GraphM.outcome? (fun g => (g.results, g.resultTypes))
      (GraphM.setBatchSize .core 2) unknownRows =
      some (false, [3], some [⟨.f32, .ofExtents [2, 12]⟩]) := by
    decide +kernel
  obtain ⟨gₐ, g', gᵦ, relaxed, first, second, direct, differ⟩ :=
    exists_not_sameTypes detour direct (by decide)
  refine differ (always unknownRows gₐ g' gᵦ 1 2 relaxed true false upToDate (by decide)
    (by decide) first second direct fun cs _ found _ c hc => ?_)
  obtain rfl := Except.ok.inj (unrelaxed.symm.trans found)
  cases hc

end Graph

end TensorGraph

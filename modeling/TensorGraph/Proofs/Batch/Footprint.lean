import TensorGraph.Proofs.Batch.Relaxability

/-!
# The footprint of a relaxation

What the pass changes in a graph and what it leaves alone (`Graph.relaxBatches_footprint`): of each
reshape that qualifies it changes the target, in front of which it puts fourteen nodes that compute
with the data, the batches and the old target of this reshape. Everything else stays as it was.
-/

namespace TensorGraph

namespace Relaxation

/-- The nodes that have been added for a candidate. -/
structure Addition where
  /-- The candidate. -/
  candidate : Candidate
  /-- What their names begin with. -/
  stem : String
  /-- Their places. -/
  chain : Chain

namespace Addition

/-- The reshape for which nodes have been added. -/
def reshape (a : Addition) : NodeId := a.candidate.reshape

/-- The nodes with their places. -/
def plan (a : Addition) : List (NodeId × Node) := a.candidate.plan a.stem a.chain

/-- The places of the nodes. -/
def places (a : Addition) : List NodeId := a.plan.map Prod.fst

theorem length_places (a : Addition) : a.places.length = 14 := rfl

end Addition

/-- The second graph is the first one with the additions, and the reshapes read these as their
targets. -/
structure Extended (additions : List Addition) (g g' : Graph) : Prop where
  /-- No node has gone, and the new ones are those of the additions. -/
  contains : ∀ id, g'.contains id ↔ g.contains id ∨ id ∈ additions.flatMap Addition.places
  /-- The new nodes take places that were vacant. -/
  apart : ∀ id ∈ additions.flatMap Addition.places, g.contains id = false
  /-- Each takes one of its own. -/
  nodup : (additions.flatMap Addition.places).Nodup
  /-- They are as planned. -/
  planted : ∀ a ∈ additions, ∀ planned ∈ a.plan, (g'.node? planned.1).map Node.bare = some planned.2
  /-- The reshapes read them as their targets and are the same otherwise. -/
  reshape : ∀ a ∈ additions, g'.node? a.reshape = (g.node? a.reshape).map fun node =>
    { node with inputs := node.inputs.set 1 (output a.chain.target) }
  /-- All other nodes are the same. -/
  other : ∀ id, g.contains id → id ∉ additions.map Addition.reshape → g'.node? id = g.node? id
  /-- So are the parameters. -/
  parameters : g'.parameters = g.parameters
  /-- So are the results. -/
  results : g'.results = g.results

variable {g g₁ g' : Graph} {cs : List Candidate} {additions : List Addition} {a : Addition}

namespace Extended

theorem refl (g : Graph) : Extended [] g g where
  contains := by simp
  apart := by simp
  nodup := List.nodup_nil
  planted := by simp
  reshape := by simp
  other _ _ _ := rfl
  parameters := rfl
  results := rfl

/-- One addition before the others. -/
theorem cons (step : Relaxed a.candidate a.stem a.chain g g₁) (nodup : a.places.Nodup)
    (rest : Extended additions g₁ g') (old : ∀ b ∈ a :: additions, g.contains b.reshape)
    (distinct : ((a :: additions).map Addition.reshape).Nodup) :
    Extended (a :: additions) g g' := by
  obtain ⟨here, later⟩ := List.forall_mem_cons.1 old
  obtain ⟨fresh, -⟩ := List.nodup_cons.1 distinct
  have grown : ∀ id, g.contains id → g₁.contains id := fun id h => (step.contains id).2 (.inl h)
  have own : ∀ id ∈ a.places, g₁.contains id := fun id h => (step.contains id).2 (.inr h)
  -- no reshape is among the new nodes
  have spared : ∀ id ∈ a.places, id ∉ additions.map Addition.reshape := by
    intro id hid hreshape
    obtain ⟨b, hb, rfl⟩ := List.mem_map.1 hreshape
    exact absurd (later b hb) (by simp [step.apart _ hid])
  refine ⟨?contains, ?apart, ?nodup, ?planted, ?reshape, ?other,
    rest.parameters.trans step.parameters, rest.results.trans step.results⟩
  case contains =>
    intro id
    rw [rest.contains, step.contains, List.flatMap_cons, List.mem_append, or_assoc]
    rfl
  case apart =>
    intro id hid
    rcases List.mem_append.1 hid with hid | hid
    · exact step.apart id hid
    · have vacant := rest.apart id hid
      exact Bool.eq_false_iff.2 fun live => by simp [grown id live] at vacant
  case nodup =>
    refine List.nodup_append.2 ⟨nodup, rest.nodup, ?_⟩
    rintro id hid _ hlater rfl
    have vacant := rest.apart id hlater
    simp [own id hid] at vacant
  case planted =>
    intro b hb planned hplanned
    rcases List.mem_cons.1 hb with rfl | hb
    · have place : planned.1 ∈ b.places := List.mem_map_of_mem hplanned
      rw [rest.other _ (own _ place) (spared _ place)]
      exact step.planted planned hplanned
    · exact rest.planted b hb planned hplanned
  case reshape =>
    intro b hb
    rcases List.mem_cons.1 hb with rfl | hb
    · rw [rest.other _ (grown _ here) fresh]
      exact step.node?_reshape
    · have other : b.reshape ≠ a.reshape := fun e => fresh (e ▸ List.mem_map_of_mem hb)
      rw [rest.reshape b hb, step.node?_old _ (later b hb) other]
  case other =>
    intro id hid untouched
    obtain ⟨ne, untouched⟩ := not_or.1 (List.mem_cons.not.1 untouched)
    rw [rest.other id (grown id hid) untouched, step.node?_old id hid ne]

/-- Each addition has fourteen nodes. -/
theorem size (h : Extended additions g g') : g'.size = g.size + 14 * additions.length := by
  have nodup : (g.ids ++ additions.flatMap Addition.places).Nodup := by
    refine List.nodup_append.2 ⟨g.nodup_ids, h.nodup, ?_⟩
    rintro id old _ new rfl
    exact absurd (Graph.mem_ids.1 old) (by simp [h.apart id new])
  have perm : g'.ids.Perm (g.ids ++ additions.flatMap Addition.places) := by
    refine (List.perm_ext_iff_of_nodup g'.nodup_ids nodup).2 fun id => ?_
    rw [Graph.mem_ids, h.contains, List.mem_append, Graph.mem_ids]
  have added : (additions.flatMap Addition.places).length = 14 * additions.length := by
    simp [List.length_flatMap, Addition.length_places, Nat.mul_comm]
  have length := perm.length_eq
  rw [List.length_append, added] at length
  simpa [Graph.ids, Graph.size] using length

end Extended

/-- Relaxing candidates with reshapes of their own extends the graph by an addition for each. -/
theorem exists_extended (inputsLive : g.InputsLive) (reads : ∀ c ∈ cs, c.Reads g c.target)
    (nodup : (cs.map Candidate.reshape).Nodup)
    (run : (cs.forM (relax .core)).runOn g = (.ok (), g')) :
    ∃ additions, additions.map Addition.candidate = cs ∧ Extended additions g g' := by
  induction cs generalizing g with
  | nil =>
    obtain ⟨-, rfl⟩ := GraphM.runOn_pure_eq_ok_iff.1 run
    exact ⟨[], rfl, .refl g⟩
  | cons c cs ih =>
    obtain ⟨_, g₁, first, later⟩ := GraphM.runOn_bind_eq_ok_iff.1 run
    obtain ⟨here, others⟩ := List.forall_mem_cons.1 reads
    obtain ⟨fresh, distinct⟩ := List.nodup_cons.1 nodup
    obtain ⟨stem, chain, step, own⟩ := exists_relaxed_nodup inputsLive here first
    have others' : ∀ c' ∈ cs, c'.Reads g₁ c'.target := fun c' hc' =>
      (others c' hc').relaxed step fun e => fresh (e ▸ List.mem_map_of_mem hc')
    obtain ⟨additions, rfl, rest⟩ := ih step.inputsLive others' distinct later
    let a : Addition := ⟨c, stem, chain⟩
    have old : ∀ b ∈ a :: additions, g.contains b.reshape := by
      intro b hb
      obtain ⟨node, hnode, -⟩ := reads b.candidate (List.mem_map_of_mem hb)
      exact Graph.contains_of_node? hnode
    rw [List.map_cons, List.map_map] at nodup
    exact ⟨a :: additions, rfl, .cons step own rest old nodup⟩

end Relaxation

namespace Graph

open Relaxation

variable {g : Graph}

/-- The footprint of the pass on a valid graph that is up to date. If the data of a reshape that
qualifies have the batch 0 then the pass refuses and changes nothing. If it succeeds then it says
whether a reshape qualifies, and the graph has been extended by an addition for each of them. -/
theorem relaxBatches_footprint (valid : g.validate = .ok ()) (fresh : g.hasStale = false) :
    ((∃ id node target, g.Qualifies id node 0 target) → ∃ id node target,
      g.Qualifies id node 0 target ∧ (Pass.relaxBatches.run ⟨.core, true⟩).runOn g =
        (.error (.precondition (.zeroInputBatch node.name)), g)) ∧
    ∀ changed g', (Pass.relaxBatches.run ⟨.core, true⟩).runOn g = (.ok changed, g') →
      (changed = true ↔ ∃ id node batch target, g.Qualifies id node batch target) ∧
      ∃ additions : List Addition,
        (∀ id, (∃ node batch target, g.Qualifies id node batch target) ↔
          id ∈ additions.map Addition.reshape) ∧
        (additions.map Addition.reshape).Nodup ∧ (∀ a ∈ additions, a.candidate.Fits g) ∧
        Extended additions g g' ∧ g'.size = g.size + 14 * additions.length := by
  rw [validate_eq_ok_iff] at valid
  rcases candidates_cases valid with ⟨cs, found, complete, sound⟩ | ⟨id, node, target, failed, zero⟩
  · obtain ⟨fits, nodup⟩ := fits_of_candidates found
    have qualified : ∀ id, (∃ node batch target, g.Qualifies id node batch target) ↔
        id ∈ cs.map Candidate.reshape := by
      intro id
      constructor
      · rintro ⟨node, batch, target, h⟩
        obtain ⟨c, hc, rfl, -⟩ := complete id node batch target h
        exact List.mem_map_of_mem hc
      · intro h
        obtain ⟨c, hc, rfl⟩ := List.mem_map.1 h
        obtain ⟨node, target, h, -⟩ := sound c hc
        exact ⟨node, _, target, h⟩
    constructor
    · rintro ⟨id, node, target, zero⟩
      obtain ⟨c, hc, -, none, -⟩ := complete id node 0 target zero
      exact absurd none (fits c hc).inBatch_pos.ne'
    · intro changed g' run
      obtain ⟨relaxed, rfl⟩ := (runOn_relaxBatches_of_fresh fresh found).1 run
      obtain ⟨additions, rfl, extended⟩ := exists_extended valid.inputsLive
        (fun c hc => (fits c hc).reshape) nodup relaxed
      rw [List.map_map] at nodup
      refine ⟨?_, additions, fun id => ?_, nodup, fun a ha => fits _ (List.mem_map_of_mem ha),
        extended, extended.size⟩
      · rw [Bool.not_eq_true', List.isEmpty_eq_false_iff_exists_mem]
        constructor
        · rintro ⟨c, hc⟩
          exact ⟨_, (qualified _).2 (List.mem_map_of_mem hc)⟩
        · rintro ⟨id, h⟩
          obtain ⟨c, hc, -⟩ := List.mem_map.1 ((qualified id).1 h)
          exact ⟨c, hc⟩
      · rw [qualified, List.map_map]
        rfl
  · have refused : (Pass.relaxBatches.run ⟨.core, true⟩).runOn g =
        (.error (.precondition (.zeroInputBatch node.name)), g) :=
      runOn_relaxBatches_of_error fresh failed
    refine ⟨fun _ => ⟨id, node, target, zero, refused⟩, fun changed g' run => ?_⟩
    cases refused.symm.trans run

theorem exists_extended_fixedBatch :
    ∃ additions : List Addition, additions ≠ [] ∧ Extended additions fixedBatch relaxedBatches := by
  have valid : fixedBatch.validate = .ok () := by decide +kernel
  have fresh : fixedBatch.hasStale = false := by decide +kernel
  obtain ⟨changed, additions, qualified, -, -, extended, -⟩ :=
    (relaxBatches_footprint valid fresh).2 true relaxedBatches run_fixedBatch
  obtain ⟨id, qualifies⟩ := changed.1 rfl
  refine ⟨additions, ?_, extended⟩
  rintro rfl
  cases (qualified id).1 qualifies

end Graph

end TensorGraph

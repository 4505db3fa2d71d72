import TensorGraph.Proofs.Graph.Grounded
import TensorGraph.Proofs.Graph.Served

/-!
# Collection

A node is needed if it is a parameter or some result is computed from it, over any number of inputs.
`Graph.removeUnreachable_spec`: where the edges mirror the inputs, collection takes out exactly the
nodes that are not needed, and nobody else notices. What is left is ordered as before, since nobody
who stays ever waits for somebody who goes (`Graph.order_collect`).
-/

namespace TensorGraph

namespace Walk

variable {next : NodeId → List NodeId} {seen : List NodeId} {a b : NodeId}

theorem not_mem_seen (h : Walk next seen a b) : a ∉ seen := by
  cases h <;> assumption

theorem reflTransGen (h : Walk next seen a b) :
    Relation.ReflTransGen (fun a b => b ∈ next a) a b := by
  induction h with
  | stay => exact .refl
  | step _ edge _ ih => exact ih.head edge

end Walk

namespace Graph

variable {g : Graph} {id p : NodeId}

/-! ### What is collected -/

theorem runOn_removeUnreachable_of_dead_eq_nil (h : g.dead = []) :
    GraphM.removeUnreachable.runOn g = (.ok 0, g) := by
  rw [GraphM.runOn_removeUnreachable, collect, h]
  rfl

/-- What is not dead is a parameter, or a result depends on it. -/
theorem needed_of_dead_eq_nil (h : g.dead = []) (live : g.contains id) :
    id ∈ g.parameters ∨ ∃ result ∈ g.results,
      Relation.ReflTransGen (fun reader source => source ∈ g.predecessors reader) result id := by
  by_contra unneeded
  obtain ⟨notParameter, unreached⟩ := not_or.1 unneeded
  have dead : id ∈ g.dead :=
    mem_dead.2 ⟨live, notParameter, fun ⟨w, hw, walk⟩ => unreached ⟨w, hw, walk.reflTransGen⟩⟩
  simp [h] at dead

/-- Nothing is collected that a walk from a result leads to, so that the walk stays. -/
theorem walk_collect {a b : NodeId} (walk : Walk g.predecessors g.parameters a b)
    (kept : ∀ i, Walk g.predecessors g.parameters a i → i ∉ g.dead) :
    Walk g.collect.predecessors g.collect.parameters a b := by
  have clear {i : NodeId} (h : i ∉ g.parameters) : i ∉ g.collect.parameters := by
    rw [collect, (designated_foldl_vacate g g.dead).1, List.mem_filter]
    exact fun hi => h hi.1
  induction walk with
  | stay outside => exact .stay (clear outside)
  | @step a b c outside edge rest ih =>
    refine .step (clear outside) ?_ (ih fun i hi => kept i (.step outside edge hi))
    obtain ⟨port, hedge⟩ := mem_predecessors.1 edge
    have source : b ∉ g.dead := kept b (.step outside edge (.stay rest.not_mem_seen))
    exact mem_predecessors.2
      ⟨port, mem_edges_foldl_vacate.2 ⟨hedge, source, kept a (.stay outside)⟩⟩

/-- Collecting once is enough. -/
theorem dead_collect (g : Graph) : g.collect.dead = [] := by
  rw [List.eq_nil_iff_forall_not_mem]
  intro id dead
  obtain ⟨live, notParameter, unreached⟩ := mem_dead.1 dead
  rw [collect, contains_foldl_vacate] at live
  split at live
  · cases live
  next kept =>
    have outside : id ∉ g.parameters := by
      intro parameter
      apply notParameter
      rw [collect, (designated_foldl_vacate g g.dead).1, List.mem_filter]
      exact ⟨parameter, by simpa using kept⟩
    have reached : ∃ w ∈ g.results, Walk g.predecessors g.parameters w id := by
      by_contra unreached
      exact kept (mem_dead.2 ⟨live, outside, unreached⟩)
    obtain ⟨w, hw, walk⟩ := reached
    have stays (i : NodeId) (hi : Walk g.predecessors g.parameters w i) : i ∉ g.dead :=
      fun dead => (mem_dead.1 dead).2.2 ⟨w, hw, hi⟩
    refine unreached ⟨w, ?_, walk_collect walk stays⟩
    rw [collect, (designated_foldl_vacate g g.dead).2, List.mem_filter]
    exact ⟨hw, by simpa using stays w (.stay walk.not_mem_seen)⟩

/-! ### What is needed -/

/-- The node is a parameter, or a result is computed from it. -/
def Needed (g : Graph) (id : NodeId) : Prop :=
  id ∈ g.parameters ∨ ∃ result ∈ g.results, Relation.ReflTransGen g.Reads result id

/-- The edges mirror the inputs, which name nodes that exist, and parameters have none. -/
structure Rooted (g : Graph) : Prop extends Wired g where
  parameters_read_nothing : ∀ id ∈ g.parameters, ∀ port, g.input? id port = none

namespace Rooted

theorem not_mem_parameters (h : g.Rooted) (reads : g.Reads id p) : id ∉ g.parameters := by
  obtain ⟨port, hread⟩ := reads
  intro parameter
  rw [h.parameters_read_nothing id parameter port] at hread
  cases hread

/-- What a needed node reads is needed. -/
theorem needed_of_reads (h : g.Rooted) (needed : g.Needed id) (reads : g.Reads id p) :
    g.Needed p := by
  rcases needed with parameter | ⟨result, hresult, path⟩
  · exact absurd parameter (h.not_mem_parameters reads)
  · exact .inr ⟨result, hresult, path.tail reads⟩

/-- A path to what is no parameter passes through none, so that the search follows it. -/
theorem walk_of_reflTransGen (h : g.Rooted) {a b : NodeId}
    (path : Relation.ReflTransGen g.Reads a b) (outside : b ∉ g.parameters) :
    Walk g.predecessors g.parameters a b := by
  induction path using Relation.ReflTransGen.head_induction_on with
  | refl => exact .stay outside
  | head reads _ ih =>
    exact .step (h.not_mem_parameters reads) (h.mem_predecessors_iff_reads.2 reads) ih

/-- Dead are the nodes that are not needed. -/
theorem mem_dead_iff (h : g.Rooted) : id ∈ g.dead ↔ g.contains id ∧ ¬g.Needed id := by
  rw [mem_dead, Needed, not_or]
  refine and_congr_right fun _ => and_congr_right fun outside => not_congr ?_
  refine exists_congr fun result => and_congr_right fun _ => ?_
  constructor
  · intro walk
    exact Relation.ReflTransGen.mono (fun _ _ edge => h.mem_predecessors_iff_reads.1 edge) _ _
      walk.reflTransGen
  · exact fun path => h.walk_of_reflTransGen path outside

theorem contains_collect (h : g.Rooted) :
    g.collect.contains id ↔ g.contains id ∧ g.Needed id := by
  rw [collect, contains_foldl_vacate]
  split
  · next dead => simp [(h.mem_dead_iff.1 dead).2]
  · next kept =>
    rw [h.mem_dead_iff, not_and, not_not] at kept
    exact ⟨fun live => ⟨live, kept live⟩, And.left⟩

theorem not_mem_dead (h : g.Rooted) (needed : g.Needed id) : id ∉ g.dead :=
  fun dead => (h.mem_dead_iff.1 dead).2 needed

/-! ### What stays -/

theorem get?_collect (h : g.Rooted) (live : g.collect.contains id) :
    g.collect.get? id = g.get? id := by
  rw [collect, get?_foldl_vacate, if_neg (h.not_mem_dead (h.contains_collect.1 live).2)]

theorem designated_collect (h : g.Rooted) :
    g.collect.parameters = g.parameters ∧ g.collect.results = g.results := by
  rw [collect, (designated_foldl_vacate g g.dead).1, (designated_foldl_vacate g g.dead).2]
  constructor
  · refine List.filter_eq_self.2 fun id hid => ?_
    simpa using h.not_mem_dead (.inl hid)
  · refine List.filter_eq_self.2 fun id hid => ?_
    simpa using h.not_mem_dead (.inr ⟨id, hid, .refl⟩)

/-- The nodes that stay have all their edges. -/
theorem mem_predecessors_collect (h : g.Rooted) (live : g.collect.contains id) :
    p ∈ g.collect.predecessors id ↔ p ∈ g.predecessors id := by
  obtain ⟨-, needed⟩ := h.contains_collect.1 live
  rw [mem_predecessors, mem_predecessors]
  constructor
  · rintro ⟨port, edge⟩
    exact ⟨port, (mem_edges_foldl_vacate.1 edge).1⟩
  · rintro ⟨port, edge⟩
    have reads := h.mem_predecessors_iff_reads.1 (mem_predecessors.2 ⟨port, edge⟩)
    refine ⟨port, mem_edges_foldl_vacate.2 ⟨edge, ?_, h.not_mem_dead needed⟩⟩
    exact h.not_mem_dead (h.needed_of_reads needed reads)

theorem validate_collect (h : g.Rooted) (ok : g.validate = .ok ()) :
    g.collect.validate = .ok () := by
  have valid := validate_eq_ok_iff.1 ok
  obtain ⟨parameters, results⟩ := h.designated_collect
  refine validate_eq_ok_iff.2 ⟨?_, ?_, ?_, ?_⟩
  · intro id port o hread
    have live := contains_of_input? hread
    have old : g.input? id port = some o := by
      simpa only [input?, node?, h.get?_collect live] using hread
    obtain ⟨slot, hslot⟩ := valid.inputs_exist id port o old
    obtain ⟨producer, hproducer, hout⟩ := slot_eq_ok_iff.1 hslot
    have needed := h.needed_of_reads (h.contains_collect.1 live).2
      ⟨port, by rw [old, Option.map_some]⟩
    have stays := h.contains_collect.2 ⟨contains_of_node? hproducer, needed⟩
    have same : g.collect.node? o.node = some producer := by
      rw [node?, h.get?_collect stays]
      exact hproducer
    exact ⟨slot, slot_eq_ok_iff.2 ⟨producer, same, hout⟩⟩
  · intro id hid
    rw [parameters] at hid
    exact h.contains_collect.2 ⟨valid.parameters_live id hid, .inl hid⟩
  · intro id hid
    rw [results] at hid
    exact h.contains_collect.2 ⟨valid.results_live id hid, .inr ⟨id, hid, .refl⟩⟩
  · obtain ⟨rank, up⟩ := isCyclic_eq_false_iff.1 valid.acyclic
    exact isCyclic_eq_false_iff.2
      ⟨rank, fun edge hedge => up edge (mem_edges_foldl_vacate.1 hedge).1⟩

/-- The dead nodes are left out of the order, and nothing else changes in it. -/
theorem order_collect (h : g.Rooted) : g.collect.order = g.order.filter g.collect.contains := by
  have seq? {id : NodeId} (live : g.collect.contains id) : g.collect.seq? id = g.seq? id := by
    rw [Graph.seq?, h.get?_collect live]
    rfl
  have served : Served (fun id => g.contains id ∧ g.collect.contains id)
      (fun id p => p ∈ g.collect.predecessors id) g.collect.Precedes
      (g.order.filter fun id => g.collect.contains id = true) := by
    refine g.served_order.filter (fun id p _ live edge => ?_)
      (fun id p _ live => h.mem_predecessors_collect live) fun a b live live' before => ?_
    · obtain ⟨port, hedge⟩ := mem_predecessors.1 ((h.mem_predecessors_collect live).2 edge)
      exact (g.collect.edges_live _ hedge).1
    · obtain ⟨s, t, hs, ht, turn⟩ := before
      exact ⟨s, t, (seq? live).trans hs, (seq? live').trans ht, turn⟩
  have same (id : NodeId) :
      (g.contains id = true ∧ g.collect.contains id = true) = (g.collect.contains id = true) := by
    rw [h.contains_collect]
    simp
  simp only [same, Bool.decide_eq_true] at served
  exact g.collect.served_order.eq (fun _ _ => Precedes.asymm) served

theorem dead_eq_filter (h : g.Rooted) :
    g.dead = g.ids.filter fun id => !g.collect.contains id := by
  rw [dead]
  refine List.filter_congr fun id hid => ?_
  have isDead : (!(g.dependencies g.results g.parameters).contains id) = true ↔ id ∈ g.dead := by
    rw [dead, List.mem_filter]
    exact (and_iff_right hid).symm
  rw [Bool.eq_iff_iff, isDead, h.mem_dead_iff, Bool.not_eq_true', ← Bool.not_eq_true,
    h.contains_collect]
  simp [mem_ids.1 hid]

end Rooted

/-- Collection takes out the nodes that are not needed and counts them. The others stay as they are,
and so do the parameters and the results; a valid graph stays valid; the order is as before without
the nodes that are gone; and collecting once more does nothing. -/
theorem removeUnreachable_spec (rooted : g.Rooted) :
    ∃ n g', GraphM.removeUnreachable.runOn g = (.ok n, g') ∧
      (∀ id, g'.contains id ↔ g.contains id ∧ g.Needed id) ∧
      n = (g.ids.filter fun id => !g'.contains id).length ∧
      (∀ id, g'.contains id → g'.get? id = g.get? id) ∧
      g'.parameters = g.parameters ∧ g'.results = g.results ∧
      (g.validate = .ok () → g'.validate = .ok ()) ∧
      g'.order = g.order.filter g'.contains ∧
      GraphM.removeUnreachable.runOn g' = (.ok 0, g') := by
  obtain ⟨parameters, results⟩ := rooted.designated_collect
  refine ⟨g.dead.length, g.collect, GraphM.runOn_removeUnreachable g,
    fun _ => rooted.contains_collect, ?_, fun _ => rooted.get?_collect, parameters, results,
    rooted.validate_collect, rooted.order_collect,
    runOn_removeUnreachable_of_dead_eq_nil g.dead_collect⟩
  rw [rooted.dead_eq_filter]

theorem Linked.rooted (h : g.Linked) : g.Rooted := ⟨h.toWired, h.parameters_read_nothing⟩

/-- Node 1 is read twice by node 3 and once by node 2, which no result needs. The result 5 is
replaced by the parameter 0, which so becomes a result itself. -/
def sharedProducer : List Call :=
  [.addParameter "x" ⟨.f32, .ofExtents [2]⟩, .makeNode { op := "Relu", inputs := [⟨0, 0⟩] },
    .makeNode { op := "Ceiling", inputs := [⟨1, 0⟩] },
    .makeNode { op := "Add", inputs := [⟨1, 0⟩, ⟨1, 0⟩] }, .addResult ⟨3, 0⟩, .addResult ⟨1, 0⟩,
    .replaceNode 5 0, .addParameter "y" ⟨.f32, .ofExtents [3]⟩]

theorem order_removeUnreachable_sharedProducer :
    ((empty "f").after .core sharedProducer).Rooted ∧
      ((empty "f").after .core sharedProducer).order = [0, 1, 2, 3, 4, 5, 6] ∧
      ((empty "f").after .core sharedProducer).results = [4, 0] ∧
      ((empty "f").after .core (sharedProducer ++ [.removeUnreachable])).order =
        [0, 1, 3, 4, 6] := by
  have linking : AllAlong .core Call.Linking (empty "f") sharedProducer := by decide +kernel
  have rooted : ((empty "f").after .core sharedProducer).Rooted :=
    ((linked_empty "f").after linking).rooted
  have order : ((empty "f").after .core sharedProducer).order = [0, 1, 2, 3, 4, 5, 6] := by
    decide +kernel
  refine ⟨rooted, order, by decide +kernel, ?_⟩
  obtain ⟨n, g', run, -, -, -, -, -, -, kept, -⟩ := removeUnreachable_spec rooted
  have after : (empty "f").after .core (sharedProducer ++ [.removeUnreachable]) = g' := by
    rw [Graph.after, List.foldl_append]
    exact congrArg Prod.snd run
  rw [after, kept, order, ← after]
  decide +kernel

end Graph

end TensorGraph

import Mathlib.Data.Set.Card
import Mathlib.Logic.Relation
import TensorGraph.Proofs.Calls
import TensorGraph.Proofs.Graph.Validity

/-!
# Grounded graphs

Validation looks for cycles along the edges, while it is the inputs that say what is computed from
what. `Graph.Grounded` is what validation is for: every reference leads somewhere, and no node is
computed from itself. `Graph.validate_eq_ok_of_grounded`: after any calls, whatever they name, a
grounded graph is found valid, and a graph found valid is grounded as long as no insertion has taken
a place that some input named already. The edges of such an input are missing, so that a cycle
through it is not seen.
-/

namespace TensorGraph

namespace Graph

variable {g g' : Graph} {id : NodeId} {port : Nat} {node : Node} {o : Output}

/-- The first node reads the second one. -/
def Reads (g : Graph) (reader source : NodeId) : Prop :=
  ∃ port, (g.input? reader port).map Output.node = some source

theorem reads_iff_exists_input {reader source : NodeId} :
    g.Reads reader source ↔ ∃ port o, g.input? reader port = some o ∧ o.node = source :=
  exists_congr fun _ => Option.map_eq_some_iff

theorem reads_iff {reader source : NodeId} :
    g.Reads reader source ↔ ∃ node ∈ g.node? reader, ∃ o ∈ node.inputs, o.node = source := by
  rw [reads_iff_exists_input]
  constructor
  · rintro ⟨port, o, hread, source⟩
    obtain ⟨node, hnode, hport⟩ := input?_eq_some_iff.1 hread
    exact ⟨node, hnode, o, List.mem_of_getElem? hport, source⟩
  · rintro ⟨node, hnode, o, ho, source⟩
    obtain ⟨port, hread⟩ := exists_port_of_mem hnode ho
    exact ⟨port, o, hread, source⟩

instance (reader source : NodeId) : Decidable (g.Reads reader source) :=
  decidable_of_iff _ reads_iff.symm

/-- Every reference leads to what is there, and no node is computed from itself. -/
structure Grounded (g : Graph) : Prop where
  inputs_exist : ∀ id port o, g.input? id port = some o →
    ∃ node, g.node? o.node = some node ∧ o.slot < node.outputs.length
  parameters_live : ∀ id ∈ g.parameters, g.contains id
  results_live : ∀ id ∈ g.results, g.contains id
  acyclic : ∀ id, ¬Relation.TransGen g.Reads id id

theorem exists_slot_eq_ok_iff :
    (∃ slot, g.slot o = .ok slot) ↔
      ∃ node, g.node? o.node = some node ∧ o.slot < node.outputs.length := by
  simp only [slot_eq_ok_iff, List.getElem?_eq_some_iff]
  constructor
  · rintro ⟨_, node, hnode, bound, _⟩
    exact ⟨node, hnode, bound⟩
  · rintro ⟨node, hnode, bound⟩
    exact ⟨_, node, hnode, bound, rfl⟩

instance decidableExistsSlot (g : Graph) (o : Output) : Decidable (∃ slot, g.slot o = .ok slot) :=
  match h : g.slot o with
  | .ok slot => isTrue ⟨slot, rfl⟩
  | .error _ => isFalse (by simp)

/-! ### What is upstream of a node -/

/-- The nodes from which the edges lead to a node. -/
def upstream (g : Graph) (id : NodeId) : Set NodeId :=
  {source | Relation.TransGen (fun reader source => source ∈ g.predecessors reader) id source}

theorem finite_upstream (g : Graph) (id : NodeId) : (g.upstream id).Finite := by
  refine g.ids.finite_toSet.subset fun source path => ?_
  obtain ⟨_, -, edge⟩ := Relation.TransGen.tail'_iff.1 path
  obtain ⟨port, hedge⟩ := mem_predecessors.1 edge
  exact mem_ids.2 (g.edges_live _ hedge).1

/-- Less is upstream of a source than of what reads it, unless the source is on a cycle. -/
theorem ncard_upstream_lt {source : NodeId} (reads : source ∈ g.predecessors id)
    (out : source ∉ g.upstream source) : (g.upstream source).ncard < (g.upstream id).ncard := by
  refine Set.ncard_lt_ncard ?_ (g.finite_upstream id)
  rw [Set.ssubset_iff_of_subset fun _ path => .head reads path]
  exact ⟨source, .single reads, out⟩

/-- The edges close a cycle exactly if some node leads back to itself along them. -/
theorem isCyclic_eq_false_iff_irreflexive :
    g.isCyclic = false ↔
      ∀ id, ¬Relation.TransGen (fun reader source => source ∈ g.predecessors reader) id id := by
  rw [isCyclic_eq_false_iff]
  constructor
  · rintro ⟨rank, up⟩ id cycle
    have down (i j : NodeId)
        (h : Relation.TransGen (fun reader source => source ∈ g.predecessors reader) i j) :
        rank j < rank i := by
      induction h with
      | single edge =>
        obtain ⟨port, hedge⟩ := mem_predecessors.1 edge
        exact up _ hedge
      | tail _ edge ih =>
        obtain ⟨port, hedge⟩ := mem_predecessors.1 edge
        exact (up _ hedge).trans ih
    exact Nat.lt_irrefl _ (down id id cycle)
  · intro irreflexive
    refine ⟨fun id => (g.upstream id).ncard, fun edge hedge => ?_⟩
    exact ncard_upstream_lt (mem_predecessors.2 ⟨_, hedge⟩) (irreflexive _)

/-! ### Edges backed by inputs -/

/-- Every edge is there because of an input. -/
def Backed (g : Graph) : Prop :=
  ∀ edge ∈ g.edges, (g.input? edge.target edge.port).map Output.node = some edge.source

theorem Mirrored.backed (h : g.Mirrored) : g.Backed :=
  fun edge hedge => ((h.mem_edges edge).1 hedge).2

theorem Backed.reads (h : g.Backed) {reader source : NodeId}
    (edge : source ∈ g.predecessors reader) : g.Reads reader source := by
  obtain ⟨port, hedge⟩ := mem_predecessors.1 edge
  exact ⟨port, h _ hedge⟩

theorem Wired.mem_predecessors_iff_reads (h : g.Wired) {reader source : NodeId} :
    source ∈ g.predecessors reader ↔ g.Reads reader source := by
  refine ⟨h.toMirrored.backed.reads, fun reads => ?_⟩
  obtain ⟨port, o, hread, rfl⟩ := reads_iff_exists_input.1 reads
  exact h.mem_predecessors.2 ⟨h.inputs_live reader port o hread, port, o, hread, rfl⟩

/-- No cycle is seen that there is not. -/
theorem Grounded.valid (h : g.Grounded) (backed : g.Backed) : g.Valid where
  inputs_exist id port o hread := exists_slot_eq_ok_iff.2 (h.inputs_exist id port o hread)
  parameters_live := h.parameters_live
  results_live := h.results_live
  acyclic := by
    refine isCyclic_eq_false_iff_irreflexive.2 fun id cycle => h.acyclic id ?_
    exact Relation.TransGen.mono (fun _ _ edge => backed.reads edge) id id cycle

/-- Where the edges mirror the inputs no cycle is overlooked. -/
theorem Valid.grounded (h : g.Valid) (mirrored : g.Mirrored) : g.Grounded where
  inputs_exist id port o hread := exists_slot_eq_ok_iff.1 (h.inputs_exist id port o hread)
  parameters_live := h.parameters_live
  results_live := h.results_live
  acyclic id cycle := by
    refine isCyclic_eq_false_iff_irreflexive.1 h.acyclic id ?_
    have wired := h.wired mirrored
    exact Relation.TransGen.mono (fun _ _ => wired.mem_predecessors_iff_reads.2) id id cycle

/-! ### What changes keep -/

theorem Backed.insert (h : g.Backed) (node : Node) : (g.insert node).Backed := by
  intro edge hedge
  rw [input?_insert]
  rcases List.mem_append.1 hedge with old | new
  · rw [if_neg (ne_nextId (g.edges_live edge old).2)]
    exact h edge old
  · obtain ⟨target, hread, _⟩ := mem_edgesInto_iff.1 new
    rw [if_pos target]
    exact hread

theorem Backed.rewire (h : g.Backed) (hport : (g.input? id port).isSome) (source : Output) :
    (g.rewire id port source).Backed := by
  intro edge hedge
  rw [input?_rewire hport]
  rcases mem_edges_rewire.1 hedge with ⟨old, beside⟩ | ⟨_, rfl⟩
  · rw [if_neg beside]
    exact h edge old
  · simp

theorem Backed.foldl_vacate (h : g.Backed) (ids : List NodeId) : (ids.foldl vacate g).Backed := by
  intro edge hedge
  obtain ⟨old, _, target⟩ := mem_edges_foldl_vacate.1 hedge
  rw [input?_foldl_vacate, if_neg target]
  exact h edge old

/-- No change of what reads what leaves an edge behind that its input is gone from. -/
theorem Backed.change {Free : Graph → Prop} (h : g.Backed) (change : Change Free g g') :
    g'.Backed := by
  cases change with
  | keep contains inputs edges =>
    intro edge hedge
    rw [inputs]
    exact h edge (edges ▸ hedge)
  | insert node => exact h.insert node
  | rewire source hport => exact h.rewire hport source
  | vacate ids => exact h.foldl_vacate ids

/-- No input names the place that the next node goes to. -/
def Unclaimed (g : Graph) : Prop :=
  ∀ id port o, g.input? id port = some o → o.node ≠ g.nextId

/-- An insertion apart, every change of what reads what keeps the edges beside the inputs. -/
theorem Mirrored.change (h : g.Mirrored) (change : Change Unclaimed g g') : g'.Mirrored := by
  cases change with
  | keep contains inputs edges =>
    refine ⟨edges ▸ h.nodup_edges, fun edge => ?_⟩
    rw [edges, contains, inputs, h.mem_edges]
  | insert node unclaimed => exact h.insert unclaimed node
  | rewire source hport => exact h.rewire hport source
  | vacate ids => exact h.foldl_vacate ids

instance : Decidable g.Unclaimed := decidable_of_iff _ forall_input_iff.symm

end Graph

/-! ### Runs -/

/-- A call that inserts a node does so in a place that no input names. -/
def Call.Unclaiming (call : Call) (g : Graph) : Prop := call.inserts → g.Unclaimed

namespace Graph

variable {registry : Registry} {name : String} {g : Graph} {calls : List Call}

instance (call : Call) (g : Graph) : Decidable (call.Unclaiming g) :=
  inferInstanceAs (Decidable (call.inserts → g.Unclaimed))

/-- After any calls, whatever they name, a grounded graph is found valid; and one that is found
valid is grounded if no insertion took a place that an input named already. -/
theorem validate_eq_ok_of_grounded
    (keeps : AllAlong registry Call.KeepsInputs (empty name) calls)
    (run : (empty name).after registry calls = g) :
    (g.Grounded → g.validate = .ok ()) ∧
      (AllAlong registry Call.Unclaiming (empty name) calls →
        (g.validate = .ok () ↔ g.Grounded)) := by
  subst run
  have start := (linked_empty name).toMirrored
  have backed : ((empty name).after registry calls).Backed :=
    after_keeps_of_change start.backed (fun _ _ change h => h.change change) keeps
      (allAlong_of_forall fun _ _ _ => trivial)
  refine ⟨fun grounded => validate_eq_ok_iff.2 (grounded.valid backed), fun unclaiming => ?_⟩
  have mirrored : ((empty name).after registry calls).Mirrored :=
    after_keeps_of_change start (fun _ _ change h => h.change change) keeps unclaiming
  rw [validate_eq_ok_iff]
  exact ⟨fun valid => valid.grounded mirrored, fun grounded => grounded.valid backed⟩

/-- A node is removed although another one reads it. That one is made to read the parameter, and
only then is the place taken again. -/
def placeTakenLater : List Call :=
  [.addParameter "x" ⟨.f32, .ofExtents [2]⟩, .makeNode { op := "Relu", inputs := [⟨0, 0⟩] },
    .makeNode { op := "Ceiling", inputs := [⟨1, 0⟩] }, .removeNode 1, .setInput 2 0 ⟨0, 0⟩,
    .makeNode { op := "Relu", inputs := [⟨2, 0⟩] }]

theorem grounded_after_placeTakenLater :
    AllAlong .core Call.KeepsInputs (empty "f") placeTakenLater ∧
      AllAlong .core Call.Unclaiming (empty "f") placeTakenLater ∧
      ((empty "f").after .core placeTakenLater).Grounded := by
  have keeps : AllAlong .core Call.KeepsInputs (empty "f") placeTakenLater := by decide +kernel
  have unclaiming : AllAlong .core Call.Unclaiming (empty "f") placeTakenLater := by
    decide +kernel
  refine ⟨keeps, unclaiming, ?_⟩
  exact ((validate_eq_ok_of_grounded keeps rfl).2 unclaiming).1 (by decide +kernel)

/-- Two nodes, the first of which names the place of the second before it is taken. -/
def placeNamedBefore : List Call :=
  [.addNode { op := "A", inputs := [⟨1, 0⟩], outputs := [.ofType ⟨.f32, .ofExtents [2]⟩] },
    .addNode { op := "B", inputs := [⟨0, 0⟩], outputs := [.ofType ⟨.f32, .ofExtents [2]⟩] }]

/-- Not every graph that is found valid is grounded. -/
theorem not_forall_grounded_of_validate :
    ¬∀ (name : String) (calls : List Call),
      AllAlong .core Call.KeepsInputs (empty name) calls →
        (((empty name).after .core calls).validate = .ok () ↔
          ((empty name).after .core calls).Grounded) := by
  intro h
  have grounded := (h "f" placeNamedBefore (by decide +kernel)).1 (by decide +kernel)
  have first : ((empty "f").after .core placeNamedBefore).Reads 0 1 := ⟨0, by decide +kernel⟩
  have second : ((empty "f").after .core placeNamedBefore).Reads 1 0 := ⟨0, by decide +kernel⟩
  exact grounded.acyclic 0 (.tail (.single first) second)

end Graph

end TensorGraph

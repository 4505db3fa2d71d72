import TensorGraph.Proofs.Calls
import TensorGraph.Proofs.Graph.Consumers

/-!
# Consistent graphs

What every reader of a graph relies on, said in terms of what it can see: the inputs, the consumers
of an output, the ages, the designated nodes and the stale ones. The main statement is
`Graph.consistent_after`: a graph that is built by linking calls is consistent after every one of
them, whether they succeed or fail.
-/

namespace TensorGraph.Graph

variable {g : Graph} {o : Output} {registry : Registry} {name : String} {calls : List Call}

/-- An input comes before another one: its node is older, or it is the same node's at a lower
port. -/
def ReadsBefore (g : Graph) (a b : NodeId × Nat) : Prop :=
  ∃ s t, g.seq? a.1 = some s ∧ g.seq? b.1 = some t ∧ (s < t ∨ s = t ∧ a.2 < b.2)

/-- Every reference of the graph leads to a node, and the consumers of an output are the inputs that
read it, each once and by age. -/
structure Consistent (g : Graph) : Prop where
  inputs_live : ∀ id port o, g.input? id port = some o → g.contains o.node
  mem_consumers : ∀ o id port, (id, port) ∈ g.consumers o ↔
    g.contains id ∧ g.input? id port = some o
  nodup_consumers : ∀ o, (g.consumers o).Nodup
  consumers_by_age : ∀ o, (g.consumers o).Pairwise g.ReadsBefore
  seq_injective : ∀ i j seq, g.seq? i = some seq → g.seq? j = some seq → i = j
  seq_lt_next : ∀ id seq, g.seq? id = some seq → seq < g.nextSeq
  parameters_live : ∀ id ∈ g.parameters, g.contains id
  results_live : ∀ id ∈ g.results, g.contains id
  stale_live : ∀ id ∈ g.staleIds, g.contains id
  parameters_read_nothing : ∀ id ∈ g.parameters, ∀ port, g.input? id port = none

theorem not_readsBefore_self (a : NodeId × Nat) : ¬g.ReadsBefore a a := by
  rintro ⟨s, t, hs, ht, before⟩
  obtain rfl := Option.some.inj (hs.symm.trans ht)
  omega

/-- The consumers are listed by the age of the node, those of one node by port. -/
theorem pairwise_consumers
    (injective : ∀ i j seq, g.seq? i = some seq → g.seq? j = some seq → i = j) (o : Output) :
    (g.consumers o).Pairwise g.ReadsBefore := by
  refine (g.pairwise_standing_consumers o).imp_of_mem ?_
  rintro ⟨i, p⟩ ⟨j, q⟩ hi hj lt
  have age {id : NodeId} {port : Nat} (h : (id, port) ∈ g.consumers o) :
      ∃ seq, g.seq? id = some seq := by
    obtain ⟨node, hnode, _⟩ := Graph.mem_consumers.1 h
    exact contains_iff_exists_seq?.1 (contains_of_node? hnode)
  obtain ⟨s, hs⟩ := age hi
  obtain ⟨t, ht⟩ := age hj
  simp only [standing, hs, ht, Option.getD_some, Prod.Lex.toLex_lt_toLex] at lt
  refine ⟨s, t, hs, ht, lt.imp_right ?_⟩
  rintro ⟨rfl, later⟩
  -- nodes of one age are one node
  obtain rfl := injective i j s hs ht
  exact ⟨rfl, (later.resolve_left (Nat.lt_irrefl i)).2⟩

/-- A linked graph is consistent. -/
theorem Linked.consistent (h : g.Linked) : g.Consistent where
  inputs_live := h.inputs_live
  mem_consumers o id port := by
    rw [and_iff_right_of_imp contains_of_input?]
    constructor
    · intro consumer
      obtain ⟨node, hnode, hport, _⟩ := Graph.mem_consumers.1 consumer
      exact input?_eq_some_iff.2 ⟨node, hnode, hport⟩
    · intro hread
      exact (h.toMirrored.mem_consumers (h.inputs_live id port o hread)).2 hread
  nodup_consumers o := by
    refine (pairwise_consumers h.seq_injective o).imp ?_
    rintro a b before rfl
    exact not_readsBefore_self a before
  consumers_by_age := pairwise_consumers h.seq_injective
  seq_injective := h.seq_injective
  seq_lt_next id seq hseq := by
    obtain ⟨entry, hentry, rfl⟩ := seq?_eq_some_iff.1 hseq
    exact g.seq_lt id entry hentry
  parameters_live := h.parameters_live
  results_live := h.results_live
  stale_live id hid := contains_of_isStale (mem_staleIds.1 hid)
  parameters_read_nothing := h.parameters_read_nothing

/-- A graph that is built by linking calls is consistent after every one of them. -/
theorem consistent_after (linking : AllAlong registry Call.Linking (empty name) calls) (k : Nat) :
    ((empty name).after registry (calls.take k)).Consistent := by
  rw [← List.take_append_drop k calls] at linking
  exact ((linked_empty name).after (allAlong_append.1 linking).1).consistent

/-- A node that is read twice gives way to the parameter that it reads, and another node takes its
place; in between a result is asked for that there is not. -/
def placeTakenAgain : List Call :=
  [.addParameter "x" ⟨.f32, .ofExtents [2]⟩, .makeNode { op := "Relu", inputs := [⟨0, 0⟩] },
    .addNode { op := "Add", inputs := [⟨1, 0⟩, ⟨1, 0⟩] }, .addResult ⟨2, 0⟩, .replaceNode 1 0,
    .removeNode 1, .makeNode { op := "Ceiling", inputs := [⟨0, 0⟩] }]

theorem consistent_after_placeTakenAgain :
    AllAlong .core Call.Linking (empty "f") placeTakenAgain ∧
      (∀ k, ((empty "f").after .core (placeTakenAgain.take k)).Consistent) ∧
      ((empty "f").after .core placeTakenAgain).consumers ⟨0, 0⟩ = [(2, 0), (2, 1), (1, 0)] := by
  have linking : AllAlong .core Call.Linking (empty "f") placeTakenAgain := by decide +kernel
  exact ⟨linking, consistent_after linking, by decide +kernel⟩

end TensorGraph.Graph

import TensorGraph.Proofs.Graph.Consumers
import TensorGraph.Proofs.Graph.Redirection

/-!
# The effect of a replacement

`Graph.Replacement` says in full what a replacement makes of a graph whose inputs all name outputs
that there are: what every node reads and is called, which nodes are designated, and who consumes
the outputs of the two nodes. The main statement is `Graph.replaceNode_spec`: a replacement succeeds
exactly if no output that the new node lacks is read by another one, and then it has that effect.
-/

namespace TensorGraph.Graph

open GraphM (moved rename)

variable {g g' : Graph} {old new i : NodeId} {p : Nat} {oldNode newNode : Node}

/-- Every input names an output that there is. -/
def Sourced (g : Graph) : Prop :=
  ∀ id port o, g.input? id port = some o → ∃ slot, g.slot o = .ok slot

instance : Decidable g.Sourced := decidable_of_iff _ forall_input_iff.symm

theorem Sourced.furnished (h : g.Sourced) (old new : NodeId) : g.Furnished old new :=
  fun id port o hread _ _ => h id port o hread

theorem Sourced.wired (h : g.Sourced) (mirrored : g.Mirrored) : g.Wired where
  toMirrored := mirrored
  inputs_live id port o hread := by
    obtain ⟨node, hnode, _⟩ := exists_slot_eq_ok_iff.1 (h id port o hread)
    exact contains_of_node? hnode

theorem Sourced.slot_lt (h : g.Sourced) {id : NodeId} {port : Nat} {o : Output} {node : Node}
    (hread : g.input? id port = some o) (hnode : g.node? o.node = some node) :
    o.slot < node.outputs.length := by
  obtain ⟨_, hsource, bound⟩ := exists_slot_eq_ok_iff.1 (h id port o hread)
  obtain rfl := Option.some.inj (hsource.symm.trans hnode)
  exact bound

/-- What a replacement makes of a graph. -/
structure Replacement (old new : NodeId) (g g' : Graph) : Prop where
  /-- Another node than the new one reads the new one where it read the old one, output by output,
  and is otherwise as it was. -/
  node?_of_ne : ∀ id, id ≠ new → g'.node? id = (g.node? id).map (Node.relabel (moved old new))
  /-- The new node takes the name of the old one if it has none, and is otherwise as it was. -/
  node?_new : ∀ oldNode newNode, g.node? old = some oldNode → g.node? new = some newNode →
    g'.node? new = some (rename oldNode.name newNode)
  seq? : ∀ id, g'.seq? id = g.seq? id
  nextSeq : g'.nextSeq = g.nextSeq
  name : g'.name = g.name
  parameters : g'.parameters = g.parameters
  results : g'.results = g.results.map (moved old new)
  mirrored : g'.Mirrored
  /-- Only the new node may still consume the old one. -/
  consumers_old : old ≠ new → ∀ slot, ∀ reader ∈ g'.consumers ⟨old, slot⟩, reader.1 = new
  /-- The other consumers of the old node are lined up with those of the new one. -/
  consumers_new : old ≠ new → ∀ slot, g'.consumers ⟨new, slot⟩ =
    (g.consumers ⟨new, slot⟩).merge (GraphM.readers g old new slot)
      fun a b => g.standing a ≤ g.standing b

/-! ### Success -/

theorem replaceNode_succeeds_iff (mirrored : g.Mirrored) (sourced : g.Sourced) :
    ((GraphM.replaceNode old new).runOn g).1 = .ok () ↔
      g.contains old ∧ ∃ newNode, g.node? new = some newNode ∧
        ∀ id port o, id ≠ new → g.input? id port = some o → o.node = old →
          o.slot < newNode.outputs.length := by
  constructor
  · intro done
    obtain ⟨oldNode, newNode, hold, hnew, wide, _⟩ :=
      GraphM.runOn_replaceNode_eq_ok_iff.1 (GraphM.eq_ok_of_fst_eq done)
    refine ⟨contains_of_node? hold, newNode, hnew, ?_⟩
    rintro id port ⟨_, slot⟩ other hread rfl
    by_contra narrow
    have reader := (GraphM.mem_readers mirrored (contains_of_node? hold)).2 ⟨hread, other⟩
    rw [wide slot (sourced.slot_lt hread hold) (Nat.le_of_not_lt narrow)] at reader
    cases reader
  · rintro ⟨live, newNode, hnew, wide⟩
    obtain ⟨oldNode, hold⟩ := contains_iff_exists_node?.1 live
    refine congrArg Prod.fst (GraphM.runOn_replaceNode_eq_ok_iff.2
      ⟨oldNode, newNode, hold, hnew, fun slot _ narrow => ?_, rfl⟩)
    rw [List.eq_nil_iff_forall_not_mem]
    rintro ⟨id, port⟩ reader
    obtain ⟨hread, other⟩ := (GraphM.mem_readers mirrored live).1 reader
    exact Nat.not_lt.2 narrow (wide id port _ other hread rfl)

/-! ### Effect -/

theorem nextSeq_and_name_rewire (g : Graph) (id : NodeId) (port : Nat) (source : Output) :
    (g.rewire id port source).nextSeq = g.nextSeq ∧ (g.rewire id port source).name = g.name := by
  have marked := SameSkeleton.markStale (g.reconnect id port source.node) id
  change (markStale _ id).nextSeq = _ ∧ (markStale _ id).name = _
  rw [marked.nextSeq, marked.name, reconnect]
  split <;> exact ⟨rfl, rfl⟩

theorem nextSeq_and_name_rewireAll (changes : List ((NodeId × Nat) × Output)) :
    (GraphM.rewireAll g changes).nextSeq = g.nextSeq ∧
      (GraphM.rewireAll g changes).name = g.name := by
  induction changes generalizing g with
  | nil => exact ⟨rfl, rfl⟩
  | cons change rest ih =>
    rw [GraphM.rewireAll_cons, ih.1, ih.2]
    exact nextSeq_and_name_rewire ..

theorem nextSeq_and_name_replaced (changes : List ((NodeId × Nat) × Output)) (name : String) :
    (GraphM.replaced g old new name changes).nextSeq = g.nextSeq ∧
      (GraphM.replaced g old new name changes).name = g.name := by
  have marked := SameSkeleton.markStale
    (GraphM.redesignate (GraphM.rewireAll g changes) old new) new
  change (markStale _ new).nextSeq = _ ∧ (markStale _ new).name = _
  rw [marked.nextSeq, marked.name]
  exact nextSeq_and_name_rewireAll changes

section

variable (mirrored : g.Mirrored) (sourced : g.Sourced)
  (done : (GraphM.replaceNode old new).runOn g = (.ok (), g'))

include mirrored sourced done

theorem wired_replaceNode : g'.Wired := by
  obtain ⟨_, _, _, hnew, _, rfl⟩ := GraphM.runOn_replaceNode_eq_ok_iff.1 done
  exact (sourced.wired mirrored).replaced (contains_of_node? hnew) _

theorem node?_replaceNode_of_ne (other : i ≠ new) :
    g'.node? i = (g.node? i).map (Node.relabel (moved old new)) := by
  obtain ⟨oldNode, _, hold, _, _, rfl⟩ := GraphM.runOn_replaceNode_eq_ok_iff.1 done
  rw [node?_replaced, if_neg other]
  cases hnode : g.node? i with
  | none =>
    rw [Option.map_none, node?_eq_none_iff, GraphM.contains_rewireAll, ← node?_eq_none_iff, hnode]
  | some node =>
    apply GraphM.node?_rewireAll_redirections mirrored (contains_of_node? hold) hnode other
    rintro port o hread rfl
    exact List.mem_range.2 (sourced.slot_lt hread hold)

omit mirrored sourced in
theorem node?_replaceNode_new (hold : g.node? old = some oldNode)
    (hnew : g.node? new = some newNode) : g'.node? new = some (rename oldNode.name newNode) := by
  obtain ⟨_, _, hold', _, _, rfl⟩ := GraphM.runOn_replaceNode_eq_ok_iff.1 done
  obtain rfl := Option.some.inj (hold.symm.trans hold')
  rw [node?_replaced, if_pos rfl, GraphM.node?_rewireAll_redirections_self, hnew, Option.map_some]

/-- Every input of another node than the new one follows the old node to its new place. -/
theorem input?_replaceNode :
    g'.input? i p = if i = new then g.input? i p
      else (g.input? i p).map (Output.relabel (moved old new)) := by
  split
  · next e =>
    subst e
    obtain ⟨_, newNode, hold, hnew, _, _⟩ := GraphM.runOn_replaceNode_eq_ok_iff.1 done
    rw [input?_eq (node?_replaceNode_new done hold hnew), input?_eq hnew]
    rfl
  · next other =>
    rw [input?, node?_replaceNode_of_ne mirrored sourced done other, input?, Option.bind_map,
      Option.map_bind]
    congr 1
    funext node
    simp [Node.relabel]

theorem consumers_replaceNode_old (distinct : old ≠ new) (slot : Nat) :
    ∀ reader ∈ g'.consumers ⟨old, slot⟩, reader.1 = new := by
  rintro ⟨i, p⟩ consumer
  obtain ⟨node, hnode, hport, _⟩ := Graph.mem_consumers.1 consumer
  have hread := input?_eq_some_iff.2 ⟨node, hnode, hport⟩
  have retired := (reads_old_iff mirrored distinct done).2 (sourced.furnished old new)
  exact retired i (reads_iff_exists_input.2 ⟨p, _, hread, rfl⟩)

theorem mem_consumers_replaceNode_new (distinct : old ≠ new) {slot : Nat} :
    (i, p) ∈ g'.consumers ⟨new, slot⟩ ↔
      (i, p) ∈ g.consumers ⟨new, slot⟩ ∨ (i, p) ∈ GraphM.readers g old new slot := by
  obtain ⟨_, _, hold, hnew, _, done'⟩ := GraphM.runOn_replaceNode_eq_ok_iff.1 done
  have live : g.contains new := contains_of_node? hnew
  have live' : g'.contains new := by rw [done', contains_replaced, live]
  have wired' := wired_replaceNode mirrored sourced done
  rw [wired'.mem_consumers (o := ⟨new, slot⟩) live', mirrored.mem_consumers (o := ⟨new, slot⟩) live,
    GraphM.mem_readers mirrored (contains_of_node? hold), input?_replaceNode mirrored sourced done]
  split
  · next e => simp [e]
  · next other =>
    cases hread : g.input? i p with
    | none => simp
    | some o =>
      obtain ⟨id, k⟩ := o
      simp only [Option.map_some, Option.some.injEq, Output.relabel, moved, Output.mk.injEq, other,
        ne_eq, not_false_eq_true, and_true]
      by_cases e : id = old
      · simp [e, distinct]
      · simp [e]

/-- The consumers of the new node are its own and those of the old node, in order. -/
theorem consumers_replaceNode_new (distinct : old ≠ new) (slot : Nat) :
    g'.consumers ⟨new, slot⟩ = (g.consumers ⟨new, slot⟩).merge (GraphM.readers g old new slot)
      fun a b => g.standing a ≤ g.standing b := by
  obtain ⟨_, _, hold, hnew, _, done'⟩ := GraphM.runOn_replaceNode_eq_ok_iff.1 done
  have standing : g'.standing = g.standing := by
    funext reader
    rw [Graph.standing, Graph.standing, done', seq?_replaced]
  have sorted := g'.pairwise_standing_consumers ⟨new, slot⟩
  rw [standing] at sorted
  refine eq_merge_of_mem_iff g.standing_injective sorted (g.pairwise_standing_consumers _)
    ((g.pairwise_standing_consumers _).filter _) ?_ ?_
  · rintro ⟨i, p⟩ reads redirected
    -- an input reads one node only
    rw [mirrored.mem_consumers (o := ⟨new, slot⟩) (contains_of_node? hnew)] at reads
    rw [GraphM.mem_readers mirrored (contains_of_node? hold), reads] at redirected
    simp [Ne.symm distinct] at redirected
  · rintro ⟨i, p⟩
    exact mem_consumers_replaceNode_new mirrored sourced done distinct

end

/-- A replacement succeeds exactly if both nodes exist and no other node than the new one reads an
output that the new one lacks; and then it replaces the old node and changes nothing else. -/
theorem replaceNode_spec (mirrored : g.Mirrored) (sourced : g.Sourced) (old new : NodeId) :
    (((GraphM.replaceNode old new).runOn g).1 = .ok () ↔
      g.contains old ∧ ∃ newNode, g.node? new = some newNode ∧
        ∀ id port o, id ≠ new → g.input? id port = some o → o.node = old →
          o.slot < newNode.outputs.length) ∧
    ∀ g', (GraphM.replaceNode old new).runOn g = (.ok (), g') → Replacement old new g g' := by
  refine ⟨replaceNode_succeeds_iff mirrored sourced, fun g' done => ?_⟩
  obtain ⟨_, _, _, _, _, same⟩ := GraphM.runOn_replaceNode_eq_ok_iff.1 done
  exact {
    node?_of_ne := fun id other => node?_replaceNode_of_ne mirrored sourced done other
    node?_new := fun _ _ hold hnew => node?_replaceNode_new done hold hnew
    seq? := fun id => by rw [same, seq?_replaced]
    nextSeq := by rw [same, (nextSeq_and_name_replaced _ _).1]
    name := by rw [same, (nextSeq_and_name_replaced _ _).2]
    parameters := by rw [same, (designated_replaced _).1]
    results := by rw [same, (designated_replaced _).2]
    mirrored := (wired_replaceNode mirrored sourced done).toMirrored
    consumers_old := consumers_replaceNode_old mirrored sourced done
    consumers_new := consumers_replaceNode_new mirrored sourced done }

/-- A node with two outputs that reads itself, is read on three ports by one node, once by the node
that replaces it, and is an output of the graph. -/
def entangled : List Call :=
  let slot : Slot := .ofType ⟨.f32, .ofExtents [2]⟩
  [.addParameter "x" slot.toSlotType,
    .addNode { op := "A", name := "a", inputs := [⟨0, 0⟩, ⟨0, 0⟩], outputs := [slot, slot] },
    .addNode { op := "B", inputs := [⟨1, 0⟩, ⟨1, 1⟩, ⟨1, 0⟩], outputs := [slot] },
    .addNode { op := "C", inputs := [⟨1, 1⟩], outputs := [slot, slot] },
    .addNode { op := "D", inputs := [⟨3, 0⟩], outputs := [slot] }, .addResult ⟨1, 0⟩,
    .setInput 1 1 ⟨1, 1⟩]

theorem replacement_entangled :
    ∃ g', ((empty "f").after .core entangled).Mirrored ∧
      ((empty "f").after .core entangled).Sourced ∧
      (GraphM.replaceNode 1 3).runOn ((empty "f").after .core entangled) = (.ok (), g') ∧
      Replacement 1 3 ((empty "f").after .core entangled) g' ∧
      g'.consumers ⟨1, 1⟩ = [(3, 0)] ∧ g'.consumers ⟨3, 1⟩ = [(1, 1), (2, 1)] ∧
      g'.consumers ⟨3, 0⟩ = [(2, 0), (2, 2), (4, 0), (5, 0)] := by
  have mirrored : ((empty "f").after .core entangled).Mirrored := by decide +kernel
  have sourced : ((empty "f").after .core entangled).Sourced := by decide +kernel
  have answer :
      ((GraphM.replaceNode 1 3).runOn ((empty "f").after .core entangled)).1 = .ok () := by
    decide +kernel
  have done := GraphM.eq_ok_of_fst_eq answer
  exact ⟨_, mirrored, sourced, done, (replaceNode_spec mirrored sourced 1 3).2 _ done,
    by decide +kernel, by decide +kernel, by decide +kernel⟩

end TensorGraph.Graph

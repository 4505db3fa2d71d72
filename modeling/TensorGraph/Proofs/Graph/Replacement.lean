import TensorGraph.Proofs.Graph.Actions
import TensorGraph.Proofs.Graph.Relabelling

/-!
# Replacement and removal

A replacement redirects inputs one after the other. Each keeps the graph wired, and in the end every
input that read the old node reads the new one (`GraphM.node?_rewireAll_redirections`). Once the old
node is removed as well, the graph is the one from before with the new node where the old one was
(`GraphM.Exchangeable.relabelled`).
-/

namespace TensorGraph

namespace GraphM

variable {g : Graph} {id i old new : NodeId} {port p : Nat} {node : Node} {o : Output}
  {name : String} {slots : List Nat} {changes : List ((NodeId × Nat) × Output)} {P : Graph → Prop}

/-! ### Links -/

/-- What every change of an input to something that exists keeps is kept by all of them. -/
theorem rewireAll_keeps
    (step : ∀ g id port source, (g.input? id port).isSome → g.contains source.node → P g →
      P (g.rewire id port source))
    (inputs : ∀ change ∈ changes, (g.input? change.1.1 change.1.2).isSome)
    (live : ∀ change ∈ changes, g.contains change.2.node) (h : P g) : P (rewireAll g changes) := by
  induction changes generalizing g with
  | nil => exact h
  | cons change rest ih =>
    obtain ⟨first, later⟩ := List.forall_mem_cons.1 inputs
    obtain ⟨exists_first, exists_later⟩ := List.forall_mem_cons.1 live
    apply ih _ _ (step g _ _ _ first exists_first h)
    · intro next hnext
      rw [isSome_input?_rewire first]
      exact later next hnext
    · intro next hnext
      rw [Graph.contains_rewire]
      exact exists_later next hnext

theorem redirections_keep
    (step : ∀ g id port source, (g.input? id port).isSome → g.contains source.node → P g →
      P (g.rewire id port source))
    (live : g.contains new) (h : P g) : P (rewireAll g (redirections g old new slots)) :=
  rewireAll_keeps step isSome_input?_of_mem_redirections
    (fun _ hchange => node_of_mem_redirections hchange ▸ live) h

/-! ### Inputs -/

/-- Changes that give inputs their images under a map give no others and change the rest nowhere. -/
theorem input?_rewireAll {F : Output → Output} (once : ∀ o, F (F o) = F o)
    (images : ∀ change ∈ changes,
      ∃ o, g.input? change.1.1 change.1.2 = some o ∧ change.2 = F o) :
    (rewireAll g changes).input? i p =
      if (i, p) ∈ changes.map Prod.fst then (g.input? i p).map F else g.input? i p := by
  induction changes generalizing g with
  | nil => rfl
  | cons change rest ih =>
    obtain ⟨⟨id, port⟩, source⟩ := change
    obtain ⟨⟨o, ho, rfl⟩, later⟩ := List.forall_mem_cons.1 images
    have rewired := Graph.input?_rewire (g := g) (Option.isSome_of_eq_some ho) (F o)
    rw [rewireAll_cons, ih, rewired]
    · simp only [List.map_cons, List.mem_cons, Prod.mk.injEq]
      by_cases first : i = id ∧ p = port
      · obtain ⟨rfl, rfl⟩ := first
        simp [ho, once]
      · simp only [first, if_false, false_or]
    · -- an input that changes twice is given the same both times
      intro next hnext
      obtain ⟨o', ho', hsource⟩ := later next hnext
      rw [rewired]
      split
      · next same =>
        rw [same.1, same.2, ho] at ho'
        obtain rfl := Option.some.inj ho'
        exact ⟨F o, rfl, by rw [once, hsource]⟩
      · exact ⟨o', ho', hsource⟩

theorem exists_inputs_rewireAll (h : g.node? i = some node)
    (changes : List ((NodeId × Nat) × Output)) :
    ∃ inputs, (rewireAll g changes).node? i = some { node with inputs } := by
  induction changes generalizing g node with
  | nil => exact ⟨node.inputs, h⟩
  | cons change rest ih =>
    have first := Graph.node?_rewire g change.1.1 change.1.2 change.2 i
    rw [h] at first
    split at first
    · obtain ⟨inputs, later⟩ := ih first
      exact ⟨inputs, later⟩
    · exact ih first

/-- The labels after the node in the place `old` has gone to the place `new`. -/
def moved (old new id : NodeId) : NodeId := if id = old then new else id

theorem moved_moved (old new : NodeId) (o : Output) :
    (o.relabel (moved old new)).relabel (moved old new) = o.relabel (moved old new) := by
  simp only [Output.relabel, moved]
  split
  · split <;> rfl
  · rfl

theorem moved_eq_iff {j : NodeId} :
    moved old new i = j ↔ i = j ∧ j ≠ old ∨ i = old ∧ j = new := by
  by_cases h : i = old <;> simp only [moved, h] <;> grind

theorem moved_ne_old (distinct : old ≠ new) (i : NodeId) : moved old new i ≠ old := by
  intro same
  rcases moved_eq_iff.1 same with ⟨_, elsewhere⟩ | ⟨_, same⟩
  · exact elsewhere rfl
  · exact distinct same

/-- Whatever reads the old node reads the new one after all redirections, apart from that one. -/
theorem node?_rewireAll_redirections (mirrored : g.Mirrored) (live : g.contains old)
    (hnode : g.node? i = some node) (other : i ≠ new)
    (covered : ∀ port o, g.input? i port = some o → o.node = old → o.slot ∈ slots) :
    (rewireAll g (redirections g old new slots)).node? i = some (node.relabel (moved old new)) := by
  obtain ⟨inputs, hinputs⟩ := exists_inputs_rewireAll hnode (redirections g old new slots)
  have images : ∀ change ∈ redirections g old new slots,
      ∃ o, g.input? change.1.1 change.1.2 = some o ∧ change.2 = o.relabel (moved old new) := by
    intro change hchange
    obtain ⟨slot, _, hreader, e⟩ := mem_redirections.1 hchange
    have reads := (mirrored.mem_consumers (o := ⟨old, slot⟩) live).1 (List.mem_filter.1 hreader).1
    exact ⟨⟨old, slot⟩, reads, by rw [e, Output.relabel, moved, if_pos rfl]⟩
  have same : inputs = node.inputs.map (Output.relabel (moved old new)) := by
    apply List.ext_getElem?
    intro p
    have input := input?_rewireAll (i := i) (p := p) (moved_moved old new) images
    rw [Graph.input?_eq hinputs, Graph.input?_eq hnode] at input
    rw [input, List.getElem?_map]
    split
    · rfl
    · next unchanged =>
      cases hread : node.inputs[p]? with
      | none => rfl
      | some o =>
        -- an input that is not redirected does not read the old node
        have elsewhere : o.node ≠ old := by
          rintro rfl
          have reads : g.input? i p = some o := by rw [Graph.input?_eq hnode, hread]
          refine unchanged (List.mem_map.2 ⟨((i, p), ⟨new, o.slot⟩), mem_redirections.2 ?_, rfl⟩)
          exact ⟨o.slot, covered p o reads rfl, List.mem_filter.2
            ⟨(mirrored.mem_consumers live).2 reads, by simpa using other⟩, rfl⟩
        rw [Option.map_some, Output.relabel, moved, if_neg elsewhere]
  rw [hinputs, same]
  rfl

theorem node?_rewireAll_of_forall_ne (h : ∀ change ∈ changes, change.1.1 ≠ i) :
    (rewireAll g changes).node? i = g.node? i := by
  induction changes generalizing g with
  | nil => rfl
  | cons change rest ih =>
    obtain ⟨first, later⟩ := List.forall_mem_cons.1 h
    rw [rewireAll_cons, ih later, Graph.node?_rewire, if_neg first.symm]

/-- The new node itself keeps what it reads. -/
theorem node?_rewireAll_redirections_self :
    (rewireAll g (redirections g old new slots)).node? new = g.node? new := by
  apply node?_rewireAll_of_forall_ne
  intro change hchange
  obtain ⟨_, _, hreader, _⟩ := mem_redirections.1 hchange
  simpa using (List.mem_filter.1 hreader).2

end GraphM

namespace Graph

variable {g : Graph} {id old new : NodeId} {name : String}

theorem Wired.replaced (h : g.Wired) (live : g.contains new) (slots : List Nat) :
    (GraphM.replaced g old new name (GraphM.redirections g old new slots)).Wired := by
  have rewired : (GraphM.rewireAll g (GraphM.redirections g old new slots)).Wired :=
    GraphM.redirections_keep (P := Wired)
      (fun _ _ _ _ hport source h => h.rewire hport source) live h
  have redesignated :
      (GraphM.redesignate
        (GraphM.rewireAll g (GraphM.redirections g old new slots)) old new).Wired :=
    ⟨⟨rewired.nodup_edges, rewired.mem_edges⟩, rewired.inputs_live⟩
  have marked := redesignated.of_sameLinks (SameSkeleton.markStale _ new).sameLinks
  exact marked.of_sameLinks (.modifyNode fun _ _ => rfl)

theorem Linked.redirected (h : g.Linked) (live : g.contains new) (slots : List Nat) :
    (GraphM.redesignate (GraphM.rewireAll g (GraphM.redirections g old new slots)) old new).Linked
    := by
  have rewired : (GraphM.rewireAll g (GraphM.redirections g old new slots)).Linked :=
    GraphM.redirections_keep (P := Linked)
      (fun _ _ _ _ hport source h => h.rewire hport source) live h
  apply rewired.setResults
  intro id hid
  obtain ⟨result, hresult, rfl⟩ := List.mem_map.1 hid
  split
  · rw [GraphM.contains_rewireAll, live]
  · exact rewired.results_live result hresult

theorem Linked.replaced (h : g.Linked) (live : g.contains new) (slots : List Nat) :
    (GraphM.replaced g old new name (GraphM.redirections g old new slots)).Linked := by
  have marked := (h.redirected live slots).of_sameLinks
    (SameSkeleton.markStale (GraphM.redesignate _ old new) new).sameLinks
  exact marked.of_sameLinks (.modifyNode fun _ _ => rfl)

theorem Wired.removed (h : g.Wired)
    (unread : ∀ i port o, g.input? i port = some o → o.node = id → i = id) :
    (GraphM.removed g id).Wired := by
  have same := SameSkeleton.markAll (g.successors id) g
  apply (h.of_sameLinks same.sameLinks).vacate
  intro i port o hread
  rw [same.input?] at hread
  exact unread i port o hread

theorem Linked.removed (h : g.Linked)
    (unread : ∀ i port o, g.input? i port = some o → o.node = id → i = id) :
    (GraphM.removed g id).Linked := by
  have same := SameSkeleton.markAll (g.successors id) g
  apply (h.of_sameLinks same.sameLinks).vacate
  intro i port o hread
  rw [same.input?] at hread
  exact unread i port o hread

/-! ### Exchange -/

theorem node?_replaced (changes : List ((NodeId × Nat) × Output)) (i : NodeId) :
    (GraphM.replaced g old new name changes).node? i =
      if i = new then ((GraphM.rewireAll g changes).node? i).map (GraphM.rename name)
      else (GraphM.rewireAll g changes).node? i := by
  rw [GraphM.replaced, node?_modifyNode, node?_markStale]
  rfl

theorem contains_replaced (changes : List ((NodeId × Nat) × Output)) (i : NodeId) :
    (GraphM.replaced g old new name changes).contains i = g.contains i := by
  rw [GraphM.replaced, contains_modifyNode, contains_markStale]
  exact GraphM.contains_rewireAll changes i

theorem seq?_replaced (changes : List ((NodeId × Nat) × Output)) (i : NodeId) :
    (GraphM.replaced g old new name changes).seq? i = g.seq? i := by
  rw [GraphM.replaced, seq?_modifyNode, seq?_markStale]
  change (GraphM.rewireAll g changes).seq? i = g.seq? i
  induction changes generalizing g with
  | nil => rfl
  | cons change rest ih => rw [GraphM.rewireAll_cons, ih, seq?_rewire]

theorem designated_replaced (changes : List ((NodeId × Nat) × Output)) :
    (GraphM.replaced g old new name changes).parameters = g.parameters ∧
      (GraphM.replaced g old new name changes).results = g.results.map (GraphM.moved old new) := by
  rw [GraphM.replaced, parameters_modifyNode, results_modifyNode, parameters_markStale,
    results_markStale]
  change (GraphM.rewireAll g changes).parameters = _ ∧
    (GraphM.rewireAll g changes).results.map (GraphM.moved old new) = _
  induction changes generalizing g with
  | nil => exact ⟨rfl, rfl⟩
  | cons change rest ih =>
    rw [GraphM.rewireAll_cons]
    have first := ih (g := g.rewire change.1.1 change.1.2 change.2)
    rwa [parameters_rewire, results_rewire] at first

theorem node?_removed (g : Graph) (id i : NodeId) :
    (GraphM.removed g id).node? i = if i = id then none else g.node? i := by
  rw [GraphM.removed, node?_vacate, node?_foldl_markStale (fun i => i)]

theorem seq?_removed (g : Graph) (id i : NodeId) :
    (GraphM.removed g id).seq? i = if i = id then none else g.seq? i := by
  rw [GraphM.removed, seq?_vacate, (SameSkeleton.markAll _ g).seq?]

theorem designated_removed (g : Graph) (id : NodeId) :
    (GraphM.removed g id).parameters = g.parameters.filter (· ≠ id) ∧
      (GraphM.removed g id).results = g.results.filter (· ≠ id) := by
  have same := SameSkeleton.markAll (g.successors id) g
  exact ⟨congrArg _ same.parameters, congrArg _ same.results⟩

end Graph

namespace GraphM

/-- The graph after a new node and its outputs. -/
def made (g : Graph) (node : Node) (slots : List Slot) : Graph :=
  (g.insert node).update g.nextId slots

/-- The graph in which a node made anew is read instead of an old one. -/
def superseded (g : Graph) (old : NodeId) (oldNode node : Node) (slots : List Slot) : Graph :=
  replaced (made g node slots) old g.nextId oldNode.name
    (redirections (made g node slots) old g.nextId (List.range oldNode.outputs.length))

/-- The graph in which a node made anew has taken the place of an old one. -/
def exchanged (g : Graph) (old : NodeId) (oldNode node : Node) (slots : List Slot) : Graph :=
  removed (superseded g old oldNode node slots) old

section

variable {g : Graph} {old i : NodeId} {oldNode node : Node} {slots : List Slot}

theorem node?_made : (made g node slots).node? i =
    if i = g.nextId then some { node with outputs := slots } else g.node? i := by
  rw [made, Graph.node?_update, Graph.node?_insert]
  split <;> rfl

theorem contains_made :
    (made g node slots).contains i = if i = g.nextId then true else g.contains i := by
  rw [made, Graph.contains_update, Graph.contains_insert]

/-- The new node can supersede the old one if it has as many outputs. -/
theorem runOn_replaceNode_made (hold : g.node? old = some oldNode)
    (outputs : slots.length = oldNode.outputs.length) :
    (replaceNode old g.nextId).runOn (made g node slots) =
      (.ok (), superseded g old oldNode node slots) := by
  have kept : (made g node slots).node? old = some oldNode := by
    rw [node?_made, if_neg (Graph.ne_nextId (Graph.contains_of_node? hold)), hold]
  have added : (made g node slots).node? g.nextId = some { node with outputs := slots } := by
    rw [node?_made, if_pos rfl]
  exact runOn_replaceNode_of_length_eq kept added outputs

theorem exists_runOn_removeNode_superseded (hold : g.node? old = some oldNode) :
    ∃ entry, (removeNode old).runOn (superseded g old oldNode node slots) =
      (.ok entry, exchanged g old oldNode node slots) := by
  have live : (superseded g old oldNode node slots).contains old := by
    simp [superseded, Graph.contains_replaced, contains_made, Graph.contains_of_node? hold]
  obtain ⟨entry, hentry⟩ := Graph.contains_iff.1 live
  exact ⟨entry, by rw [runOn_removeNode, hentry, exchanged]⟩

theorem seq?_exchanged (h : g.contains i) (other : i ≠ old) :
    (exchanged g old oldNode node slots).seq? i = g.seq? i := by
  rw [exchanged, Graph.seq?_removed, if_neg other, superseded, Graph.seq?_replaced, made,
    Graph.seq?_update, Graph.seq?_insert, if_neg (Graph.ne_nextId h)]

/-- In a valid graph the node may take the place of the old one, whose name and inputs it has. -/
structure Exchangeable (g : Graph) (old : NodeId) (oldNode node : Node) : Prop where
  valid : g.Valid
  mirrored : g.Mirrored
  old : g.node? old = some oldNode
  inputs : node.inputs = oldNode.inputs
  name : node.name = oldNode.name

namespace Exchangeable

theorem contains (h : Exchangeable g old oldNode node) : g.contains old :=
  Graph.contains_of_node? h.old

theorem ne_nextId (h : Exchangeable g old oldNode node) : old ≠ g.nextId :=
  Graph.ne_nextId h.contains

theorem input?_eq_some (h : Exchangeable g old oldNode node) {port : Nat} {o : Output}
    (hport : node.inputs[port]? = some o) : g.input? old port = some o := by
  rw [Graph.input?_eq h.old, ← h.inputs]
  exact hport

theorem wired_made (h : Exchangeable g old oldNode node) (slots : List Slot) :
    (made g node slots).Wired := by
  have wired := h.valid.wired h.mirrored
  have inserted : (g.insert node).Wired := by
    apply wired.insert
    intro o ho
    obtain ⟨port, hport⟩ := List.mem_iff_getElem?.1 ho
    exact wired.inputs_live old port o (h.input?_eq_some hport)
  exact inserted.of_sameLinks (Graph.SameSkeleton.update ..).sameLinks

theorem node?_exchanged (h : Exchangeable g old oldNode node) (slots : List Slot) (i : NodeId) :
    (exchanged g old oldNode node slots).node? i =
      if i = old then none
      else if i = g.nextId then some { node with outputs := slots }
      else (g.node? i).map (Node.relabel (moved old g.nextId)) := by
  have live : (made g node slots).contains old := by
    simp [contains_made, h.contains]
  rw [exchanged, superseded, Graph.node?_removed]
  refine if_congr Iff.rfl rfl ?_
  rw [Graph.node?_replaced]
  by_cases new : i = g.nextId
  · have named : rename oldNode.name { node with outputs := slots } =
        { node with outputs := slots } := by
      simp [rename, h.name]
    rw [if_pos new, if_pos new, new, node?_rewireAll_redirections_self, node?_made, if_pos rfl,
      Option.map_some, named]
  · rw [if_neg new, if_neg new]
    cases hnode : g.node? i with
    | none =>
      rw [Option.map_none, Graph.node?_eq_none_iff, contains_rewireAll, ← Graph.node?_eq_none_iff,
        node?_made, if_neg new, hnode]
    | some reader =>
      have kept : (made g node slots).node? i = some reader := by
        rw [node?_made, if_neg new, hnode]
      apply node?_rewireAll_redirections (h.wired_made slots).toMirrored live kept new
      intro port o ho source
      rw [Graph.input?_eq kept, ← Graph.input?_eq hnode] at ho
      exact List.mem_range.2 (h.valid.slot_lt ho (source ▸ h.old))

theorem moved_ne (h : Exchangeable g old oldNode node) (i : NodeId) :
    moved old g.nextId i ≠ old :=
  moved_ne_old h.ne_nextId i

/-- After the exchange nobody reads the old node. -/
theorem node_ne_of_input? (h : Exchangeable g old oldNode node) {port : Nat} {o : Output}
    (hread : (exchanged g old oldNode node slots).input? i port = some o) : o.node ≠ old := by
  obtain ⟨reader, hreader, hport⟩ := Graph.input?_eq_some_iff.1 hread
  rw [h.node?_exchanged] at hreader
  split at hreader
  · cases hreader
  · split at hreader
    · obtain rfl := Option.some.inj hreader
      exact h.valid.input_ne h.mirrored (h.input?_eq_some hport)
    · obtain ⟨reader, _, rfl⟩ := Option.map_eq_some_iff.1 hreader
      simp only [Node.relabel, List.getElem?_map, Option.map_eq_some_iff] at hport
      obtain ⟨o, _, rfl⟩ := hport
      exact h.moved_ne o.node

theorem wired_exchanged (h : Exchangeable g old oldNode node) (slots : List Slot) :
    (exchanged g old oldNode node slots).Wired := by
  have live : (made g node slots).contains g.nextId := by
    simp [contains_made]
  apply ((h.wired_made slots).replaced live _).removed
  intro i port o hread source
  by_contra other
  have kept : (exchanged g old oldNode node slots).input? i port = some o := by
    rw [← hread, Graph.input?, exchanged, Graph.node?_removed, if_neg other]
    rfl
  exact h.node_ne_of_input? kept source

theorem bijOn_moved (h : Exchangeable g old oldNode node) (slots : List Slot) :
    Set.BijOn (moved old g.nextId) {id | g.contains id}
      {id | (exchanged g old oldNode node slots).contains id} := by
  refine ⟨?_, ?_, ?_⟩
  · intro i live
    change g.contains i at live
    change (exchanged g old oldNode node slots).contains _
    rw [← Graph.isSome_node?, h.node?_exchanged, if_neg (h.moved_ne i), moved]
    by_cases e : i = old
    · rw [if_pos e, if_pos rfl]
      rfl
    · rw [if_neg e, if_neg (Graph.ne_nextId live), Option.isSome_map, Graph.isSome_node?, live]
  · intro i hi j hj same
    change g.contains i at hi
    change g.contains j at hj
    simp only [moved] at same
    split at same <;> split at same
    · next ei ej => rw [ei, ej]
    · exact absurd same.symm (Graph.ne_nextId hj)
    · exact absurd same (Graph.ne_nextId hi)
    · exact same
  · intro j live
    change (exchanged g old oldNode node slots).contains j at live
    rw [← Graph.isSome_node?, h.node?_exchanged] at live
    by_cases eo : j = old
    · simp [eo] at live
    by_cases en : j = g.nextId
    · exact ⟨old, h.contains, by rw [moved, if_pos rfl, en]⟩
    · rw [if_neg eo, if_neg en, Option.isSome_map, Graph.isSome_node?] at live
      exact ⟨j, live, by rw [moved, if_neg eo]⟩

/-- The exchange moves the node and leaves all else where it is. -/
theorem relabelled (h : Exchangeable g old oldNode node) (slots : List Slot)
    (notParameter : old ∉ g.parameters) :
    g.Relabelled (moved old g.nextId)
      (fun i n => if i = old then { node with outputs := slots } else n)
      (exchanged g old oldNode node slots) where
  bijOn := h.bijOn_moved slots
  node? i reader hreader := by
    rw [h.node?_exchanged, if_neg (h.moved_ne i), moved]
    by_cases e : i = old
    · have apart : Node.relabel (moved old g.nextId) { node with outputs := slots } =
          { node with outputs := slots } := by
        apply Node.relabel_eq_self
        intro o ho
        obtain ⟨port, hport⟩ := List.mem_iff_getElem?.1 ho
        rw [moved, if_neg (h.valid.input_ne h.mirrored (h.input?_eq_some hport))]
      rw [if_pos e, if_pos rfl, if_pos e, apart]
    · rw [if_neg e, if_neg (Graph.ne_nextId (Graph.contains_of_node? hreader)), hreader, if_neg e,
        Option.map_some]
  parameters := by
    have apart : ∀ id ∈ g.parameters, id ≠ old := fun id hid e => notParameter (e ▸ hid)
    have kept : g.parameters.filter (· ≠ old) = g.parameters :=
      List.filter_eq_self.2 fun id hid => decide_eq_true (apart id hid)
    have unmoved : g.parameters.map (moved old g.nextId) = g.parameters.map id :=
      List.map_congr_left fun id hid => if_neg (apart id hid)
    rw [exchanged, (Graph.designated_removed _ _).1, superseded, (Graph.designated_replaced _).1,
      unmoved, List.map_id]
    exact kept
  results := by
    rw [exchanged, (Graph.designated_removed _ _).2, superseded, (Graph.designated_replaced _).2]
    apply List.filter_eq_self.2
    intro id hid
    obtain ⟨i, _, rfl⟩ := List.mem_map.1 hid
    exact decide_eq_true (h.moved_ne i)

end Exchangeable

end

end GraphM

end TensorGraph

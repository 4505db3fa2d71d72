import TensorGraph.Proofs.Graph.Replacement
import TensorGraph.Proofs.Inference.Turns

/-!
# Runs of calls

A `Call` is one operation that changes a graph, with its arguments. `Call.Leaves` says what a call
may leave behind, one constructor for each way in which it goes, and what every call keeps is shown
by cases of it. `Graph.after` is the graph after a run of calls, each of which may fail and leave
behind what it has done so far. `Call.Linking` is what a caller has to see to for the graph to stay
linked; `Graph.Linked.after` is that it does.
-/

namespace TensorGraph

/-- An operation that changes a graph, with its arguments. -/
inductive Call where
  | addNode (node : Node)
  | addParameter (name : String) (type : SlotType)
  | addConstant (t : Tensor)
  | addResult (source : Output)
  | makeNode (node : Node)
  | inferNode (id : NodeId)
  | setInput (id : NodeId) (port : Nat) (source : Output)
  | replaceNode (old new : NodeId)
  | setOutputType (o : Output) (type : SlotType)
  | editNode (id : NodeId) (f : Node → Node)
  | markStale (id : NodeId)
  | removeNode (id : NodeId)
  | removeUnreachable
  | inferStale

namespace Call

variable (registry : Registry)

/-- The graph that a call leaves, also one that fails. -/
def leave : Call → Graph → Graph
  | addNode node, g => ((GraphM.addNode node).runOn g).2
  | addParameter name type, g => ((GraphM.addParameter name type).runOn g).2
  | addConstant t, g => ((GraphM.addConstant t).runOn g).2
  | addResult source, g => ((GraphM.addResult source).runOn g).2
  | makeNode node, g => ((GraphM.makeNode registry node).runOn g).2
  | inferNode id, g => ((GraphM.inferNode registry id).runOn g).2
  | setInput id port source, g => ((GraphM.setInput id port source).runOn g).2
  | replaceNode old new, g => ((GraphM.replaceNode old new).runOn g).2
  | setOutputType o type, g => ((GraphM.setOutputType o type).runOn g).2
  | editNode id f, g => ((GraphM.editNode id f).runOn g).2
  | markStale id, g => g.markStale id
  | removeNode id, g => ((GraphM.removeNode id).runOn g).2
  | removeUnreachable, g => (GraphM.removeUnreachable.runOn g).2
  | inferStale, g => ((GraphM.inferStale registry).runOn g).2

/-- What a call leaves behind, one constructor for each way in which it goes. -/
inductive Leaves (g : Graph) : Call → Graph → Prop where
  /-- Something that the call needs is missing, and nothing is changed. -/
  | refused (call : Call) : Leaves g call g
  | addNode (node : Node) : Leaves g (.addNode node) (g.insert node)
  | addParameter (name : String) (type : SlotType) :
      Leaves g (.addParameter name type)
        { g.insert { op := "Parameter", name, outputs := [.ofType type] } with
          parameters := g.parameters ++ [g.nextId] }
  | addConstant (t : Tensor) : Leaves g (.addConstant t) (g.insert (GraphM.constantNode t))
  | addResult {source : Output} {slot : Slot} : g.slot source = .ok slot →
      Leaves g (.addResult source)
        { g.insert (GraphM.resultNode source slot) with results := g.results ++ [g.nextId] }
  /-- The operator of a node that has been inserted fails. -/
  | notInferred (node : Node) : Leaves g (.makeNode node) (g.insert node)
  | makeNode {node : Node} {slots : List Slot} :
      (g.insert node).inferred registry node = .ok slots →
      Leaves g (.makeNode node) ((g.insert node).update g.nextId slots)
  | inferNode {id : NodeId} {node : Node} {slots : List Slot} : g.node? id = some node →
      g.inferred registry node = .ok slots → Leaves g (.inferNode id) (g.update id slots)
  | setInput {id : NodeId} {port : Nat} (source : Output) : (g.input? id port).isSome →
      Leaves g (.setInput id port source) (g.rewire id port source)
  | replaceNode {old new : NodeId} {oldNode : Node} : g.node? old = some oldNode →
      g.contains new →
      Leaves g (.replaceNode old new) (GraphM.replaced g old new oldNode.name
        (GraphM.redirections g old new (List.range oldNode.outputs.length)))
  /-- A node that lacks the output has been marked before that is found out. -/
  | notDeclared (o : Output) (type : SlotType) :
      Leaves g (.setOutputType o type) (g.markStale o.node)
  | setOutputType {o : Output} (type : SlotType) : g.contains o.node →
      Leaves g (.setOutputType o type) ((g.markStale o.node).modifyNode o.node fun node =>
        { node with outputs := GraphM.declare o.slot type node.outputs })
  | editNode {id : NodeId} (f : Node → Node) : g.contains id →
      Leaves g (.editNode id f) ((g.markStale id).modifyNode id f)
  | markStale (id : NodeId) : Leaves g (.markStale id) (g.markStale id)
  | removeNode (id : NodeId) : Leaves g (.removeNode id) (GraphM.removed g id)
  | removeUnreachable : Leaves g .removeUnreachable (g.dead.foldl Graph.vacate g)
  | inferStale :
      Leaves g .inferStale ((GraphM.inferInTurn registry g.order).runOn g).2

theorem leaves (call : Call) (g : Graph) : call.Leaves registry g (call.leave registry g) := by
  cases call with
  | addNode node => exact .addNode node
  | addParameter name type => exact .addParameter name type
  | addConstant t => exact .addConstant t
  | addResult source =>
    rw [leave, GraphM.runOn_addResult]
    cases hslot : g.slot source with
    | error e => exact .refused _
    | ok slot => exact .addResult hslot
  | makeNode node =>
    rw [leave, GraphM.runOn_makeNode]
    cases hslots : (g.insert node).inferred registry node with
    | error e => exact .notInferred node
    | ok slots => exact .makeNode hslots
  | inferNode id =>
    rw [leave, GraphM.runOn_inferNode]
    cases hnode : g.node? id with
    | none => exact .refused _
    | some node =>
      cases hslots : g.inferred registry node with
      | error e => simpa [hslots] using Leaves.refused _
      | ok slots => simpa [hslots] using Leaves.inferNode hnode hslots
  | setInput id port source =>
    rw [leave, GraphM.runOn_setInput]
    split
    · exact .refused _
    · next node hnode =>
      split
      · next bound =>
        have read : (g.input? id port).isSome := by
          rw [Graph.input?_eq hnode, List.getElem?_eq_getElem bound]
          rfl
        exact .setInput source read
      · exact .refused _
  | replaceNode old new =>
    rcases GraphM.runOn_replaceNode old new g with ⟨e, failed⟩ | ⟨_, _, hold, hnew, _, done⟩
    · rw [leave, failed]
      exact .refused _
    · rw [leave, done]
      exact .replaceNode hold (Graph.contains_of_node? hnew)
  | setOutputType o type =>
    rw [leave, GraphM.runOn_setOutputType]
    split
    · exact .refused _
    · next node hnode =>
      split
      · exact .setOutputType type (Graph.contains_of_node? hnode)
      · exact .notDeclared o type
  | editNode id f =>
    rw [leave, GraphM.runOn_editNode]
    split
    · exact .refused _
    · next node hnode => exact .editNode f (Graph.contains_of_node? hnode)
  | markStale id => exact .markStale id
  | removeNode id =>
    rw [leave, GraphM.snd_runOn_removeNode]
    exact .removeNode id
  | removeUnreachable => exact .removeUnreachable
  | inferStale =>
    rw [leave, GraphM.runOn_inferStale]
    exact .inferStale

/-- What the call names as read exists, a node is removed only if no other one reads it, and an
edit changes nothing of what the node reads. -/
def Linking : Call → Graph → Prop
  | addNode node, g => ∀ o ∈ node.inputs, g.contains o.node
  | makeNode node, g => ∀ o ∈ node.inputs, g.contains o.node
  | setInput _ _ source, g => g.contains source.node
  | editNode id f, g => ∀ node, g.node? id = some node → (f node).inputs = node.inputs
  | removeNode id, g => ∀ i port o, g.input? i port = some o → o.node = id → i = id
  | _, _ => True

/-- Does the call insert a node? -/
def inserts : Call → Bool
  | addNode _ | addParameter .. | addConstant _ | addResult _ | makeNode _ => true
  | _ => false

/-- An edit changes nothing of what the node reads. -/
def KeepsInputs : Call → Graph → Prop
  | editNode id f, g => ∀ node, g.node? id = some node → (f node).inputs = node.inputs
  | _, _ => True

instance decidableLinking (call : Call) (g : Graph) : Decidable (call.Linking g) :=
  match call with
  | addNode node => inferInstanceAs (Decidable (∀ o ∈ node.inputs, g.contains o.node))
  | makeNode node => inferInstanceAs (Decidable (∀ o ∈ node.inputs, g.contains o.node))
  | setInput _ _ source => inferInstanceAs (Decidable (g.contains source.node))
  | editNode id f =>
    inferInstanceAs (Decidable (∀ node ∈ g.node? id, (f node).inputs = node.inputs))
  | removeNode _ => decidable_of_iff _ Graph.forall_input_iff.symm
  | addParameter .. | addConstant _ | addResult _ | inferNode _ | replaceNode .. |
    setOutputType .. | markStale _ | removeUnreachable | inferStale => isTrue trivial

instance decidableKeepsInputs (call : Call) (g : Graph) : Decidable (call.KeepsInputs g) :=
  match call with
  | editNode id f =>
    inferInstanceAs (Decidable (∀ node ∈ g.node? id, (f node).inputs = node.inputs))
  | addNode _ | addParameter .. | addConstant _ | addResult _ | makeNode _ | inferNode _ |
    setInput .. | replaceNode .. | setOutputType .. | markStale _ | removeNode _ |
    removeUnreachable | inferStale => isTrue trivial

end Call

/-! ### Runs -/

namespace Graph

/-- The graph after a run of calls. -/
def after (registry : Registry) (g : Graph) (calls : List Call) : Graph :=
  calls.foldl (fun g call => call.leave registry g) g

/-- Every call of a run meets a condition on the graph that it finds. -/
def AllAlong (registry : Registry) (P : Call → Graph → Prop) : Graph → List Call → Prop
  | _, [] => True
  | g, call :: rest => P call g ∧ AllAlong registry P (call.leave registry g) rest

variable {registry : Registry} {P Q : Call → Graph → Prop} {I : Graph → Prop} {g : Graph}
  {calls : List Call}

instance decidableAllAlong [decide : ∀ call g, Decidable (P call g)] :
    (g : Graph) → (calls : List Call) → Decidable (AllAlong registry P g calls)
  | _, [] => isTrue trivial
  | g, call :: rest =>
    have := decidableAllAlong (call.leave registry g) rest
    inferInstanceAs (Decidable (P call g ∧ AllAlong registry P (call.leave registry g) rest))

/-- What every call keeps is kept by a run. -/
theorem after_keeps (along : AllAlong registry P g calls)
    (step : ∀ call g, P call g → I g → I (call.leave registry g)) (h : I g) :
    I (g.after registry calls) := by
  induction calls generalizing g with
  | nil => exact h
  | cons call rest ih => exact ih along.2 (step call g along.1 h)

theorem allAlong_of_forall (h : ∀ call g, P call g) : AllAlong registry P g calls := by
  induction calls generalizing g with
  | nil => trivial
  | cons call rest ih => exact ⟨h call g, ih⟩

theorem AllAlong.and (p : AllAlong registry P g calls) (q : AllAlong registry Q g calls) :
    AllAlong registry (fun call g => P call g ∧ Q call g) g calls := by
  induction calls generalizing g with
  | nil => trivial
  | cons call rest ih => exact ⟨⟨p.1, q.1⟩, ih p.2 q.2⟩

theorem allAlong_append {calls later : List Call} :
    AllAlong registry P g (calls ++ later) ↔
      AllAlong registry P g calls ∧ AllAlong registry P (g.after registry calls) later := by
  induction calls generalizing g with
  | nil => exact (true_and _).to_iff.symm
  | cons call rest ih =>
    rw [List.cons_append]
    change P call g ∧ _ ↔ (P call g ∧ _) ∧ _
    rw [ih, and_assoc]
    rfl

/-! ### Changes of what reads what -/

/-- One change of what reads what. An insertion is made where it is free to be made. -/
inductive Change (Free : Graph → Prop) (g : Graph) : Graph → Prop where
  /-- Everything reads what it did. -/
  | keep {g' : Graph} : (∀ id, g'.contains id = g.contains id) →
      (∀ id port, g'.input? id port = g.input? id port) → g'.edges = g.edges → Change Free g g'
  | insert (node : Node) : Free g → Change Free g (g.insert node)
  | rewire {id : NodeId} {port : Nat} (source : Output) : (g.input? id port).isSome →
      Change Free g (g.rewire id port source)
  | vacate (ids : List NodeId) : Change Free g (ids.foldl vacate g)

variable {Free : Graph → Prop} {g₁ g₂ : Graph}

theorem SameLinks.change (same : SameLinks g₁ g₂) : Change Free g₁ g₂ :=
  .keep same.contains same.input? same.edges

theorem Change.designate (g : Graph) (parameters results : List NodeId) :
    Change Free g { g with parameters, results } :=
  .keep (fun _ => rfl) (fun _ _ => rfl) rfl

theorem changes_removed (g : Graph) (id : NodeId) :
    Relation.ReflTransGen (Change Free) g (GraphM.removed g id) :=
  (Relation.ReflTransGen.single (SameSkeleton.markAll (g.successors id) g).sameLinks.change).tail
    (.vacate [id])

theorem changes_replaced {old new : NodeId} (live : g.contains new) (oldName : String)
    (slots : List Nat) :
    Relation.ReflTransGen (Change Free) g
      (GraphM.replaced g old new oldName (GraphM.redirections g old new slots)) := by
  have rewired : Relation.ReflTransGen (Change Free) g
      (GraphM.rewireAll g (GraphM.redirections g old new slots)) :=
    GraphM.redirections_keep (P := Relation.ReflTransGen (Change Free) g)
      (fun _ _ _ source hport _ path => path.tail (.rewire source hport)) live .refl
  have redesignated : Relation.ReflTransGen (Change Free) g (GraphM.redesignate _ old new) :=
    rewired.tail (.designate _ _ _)
  refine (redesignated.tail (SameSkeleton.markStale _ new).sameLinks.change).tail ?_
  exact SameLinks.change (.modifyNode fun _ _ => rfl)

/-- What a call does, change by change. -/
theorem changes_leave {call : Call} (keeps : call.KeepsInputs g) (free : call.inserts → Free g) :
    Relation.ReflTransGen (Change Free) g (call.leave registry g) := by
  have skeleton {g₁ g₂ : Graph} (same : SameSkeleton g₁ g₂) : Change Free g₁ g₂ :=
    same.sameLinks.change
  have designated (node : Node) (parameters results : List NodeId) (h : Free g) :
      Relation.ReflTransGen (Change Free) g { g.insert node with parameters, results } :=
    (Relation.ReflTransGen.single (.insert node h)).tail (.designate (g.insert node) _ _)
  have left : call.Leaves registry g (call.leave registry g) := call.leaves registry g
  generalize call.leave registry g = g' at left ⊢
  cases left with
  | refused => exact .refl
  | addNode node => exact .single (.insert node (free rfl))
  | addParameter name type => exact designated _ _ _ (free rfl)
  | addConstant t => exact .single (.insert _ (free rfl))
  | addResult => exact designated _ _ _ (free rfl)
  | notInferred node => exact .single (.insert node (free rfl))
  | makeNode =>
    exact (Relation.ReflTransGen.single (.insert _ (free rfl))).tail (skeleton (.update ..))
  | inferNode => exact .single (skeleton (.update ..))
  | setInput source read => exact .single (.rewire source read)
  | replaceNode _ live => exact changes_replaced live _ _
  | notDeclared o type => exact .single (skeleton (.markStale g o.node))
  | @setOutputType o type =>
    exact (Relation.ReflTransGen.single (skeleton (.markStale g o.node))).tail
      (skeleton (.modifyOutputs _ _ _))
  | @editNode id f =>
    refine (Relation.ReflTransGen.single (skeleton (.markStale g id))).tail
      (SameLinks.modifyNode fun node hnode => ?_).change
    rw [node?_markStale] at hnode
    exact keeps node hnode
  | markStale id => exact .single (skeleton (.markStale g id))
  | removeNode id => exact changes_removed g id
  | removeUnreachable => exact .single (.vacate g.dead)
  | inferStale => exact .single (skeleton (GraphM.sameSkeleton_inferInTurn registry g.order g))

/-- What every change keeps is kept by a run. -/
theorem after_keeps_of_change (h : I g)
    (step : ∀ g g', Change Free g g' → I g → I g')
    (keeps : AllAlong registry Call.KeepsInputs g calls)
    (free : AllAlong registry (fun call g => call.inserts → Free g) g calls) :
    I (g.after registry calls) := by
  refine after_keeps (keeps.and free) (fun call g ⟨keeps, free⟩ h => ?_) h
  have path : Relation.ReflTransGen (Change Free) g (call.leave registry g) :=
    changes_leave keeps free
  generalize call.leave registry g = g' at path
  induction path with
  | refl => exact h
  | tail _ change ih => exact step _ _ change ih

/-! ### Linked graphs -/

/-- A call that links keeps the graph linked. -/
theorem Linked.leave (h : g.Linked) {call : Call} (linking : call.Linking g) :
    (call.leave registry g).Linked := by
  have left : call.Leaves registry g (call.leave registry g) := call.leaves registry g
  generalize call.leave registry g = g' at left ⊢
  cases left with
  | refused => exact h
  | addNode node => exact h.insert linking
  | addParameter name type =>
    have inserted : (g.insert { op := "Parameter", name, outputs := [.ofType type] }).Linked :=
      h.insert (by simp)
    exact inserted.addParameter (by simp [contains_insert]) fun port => by simp [input?_insert]
  | addConstant t => exact h.insert (by simp [GraphM.constantNode])
  | @addResult source slot hslot =>
    obtain ⟨producer, hproducer, _⟩ := slot_eq_ok_iff.1 hslot
    have inserted : (g.insert (GraphM.resultNode source slot)).Linked :=
      h.insert (by simpa [GraphM.resultNode] using contains_of_node? hproducer)
    apply inserted.setResults
    intro id hid
    rcases List.mem_append.1 hid with hid | hid
    · exact inserted.results_live id hid
    · simp [List.mem_singleton.1 hid, contains_insert]
  | notInferred node => exact h.insert linking
  | makeNode => exact (h.insert linking).of_sameLinks (SameSkeleton.update ..).sameLinks
  | inferNode => exact h.of_sameLinks (SameSkeleton.update ..).sameLinks
  | setInput source read => exact h.rewire read linking
  | replaceNode _ live => exact h.replaced live _
  | notDeclared o type => exact h.of_sameLinks (SameSkeleton.markStale g o.node).sameLinks
  | @setOutputType o type =>
    exact (h.of_sameLinks (SameSkeleton.markStale g o.node).sameLinks).of_sameLinks
      (SameSkeleton.modifyOutputs _ _ _).sameLinks
  | @editNode id f =>
    refine (h.of_sameLinks (SameSkeleton.markStale g id).sameLinks).of_sameLinks
      (.modifyNode fun node hnode => ?_)
    rw [node?_markStale] at hnode
    exact linking node hnode
  | markStale id => exact h.of_sameLinks (SameSkeleton.markStale g id).sameLinks
  | removeNode id => exact h.removed linking
  | removeUnreachable => exact h.collect
  | inferStale =>
    exact h.of_sameLinks (GraphM.sameSkeleton_inferInTurn registry g.order g).sameLinks

/-- A run of calls that link keeps the graph linked. -/
theorem Linked.after (h : g.Linked) (linking : AllAlong registry Call.Linking g calls) :
    (g.after registry calls).Linked :=
  after_keeps linking (fun _ _ linking h => Linked.leave h linking) h

end Graph

end TensorGraph

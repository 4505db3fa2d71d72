import TensorGraph.Proofs.Inference.Current
import TensorGraph.Proofs.Inference.Resumption

/-!
# Corrections

A graph in which inference has failed may be corrected where it failed: an input is made to read
something else, a type is declared, or a node is changed in what it does not read and produce.
Whatever is corrected becomes stale with all that is computed from it, so that inference can go on
from there. `Graph.inferStale_resumable` says what inference comes to in the end.
-/

namespace TensorGraph

/-- The call corrects a node: it changes one of its inputs, declares one of its types, or changes
neither what it reads nor what it has produced. -/
def Call.Corrects : Call → Graph → Prop
  | setInput .., _ => True
  | setOutputType .., _ => True
  | editNode id f, g => ∀ node, g.node? id = some node →
      (f node).inputs = node.inputs ∧ (f node).outputs = node.outputs
  | _, _ => False

namespace Graph

variable {g g' h : Graph} {id : NodeId} {calls : List Call} {n : Nat}

/-! ### What corrections keep -/

theorem Underway.markStale (h : g.Underway) (id : NodeId) : (g.markStale id).Underway where
  alert := h.alert.markStale id
  inStep := h.inStep_of_spared fun i live fresh =>
    ⟨by simpa using live, isStale_eq_false_of_imp (isStale_markStale_of_isStale · id) fresh,
      node?_markStale .., fun _ o _ => slot_congr (node?_markStale g id o.node)⟩

/-- A stale node may be changed, since nothing that is up to date reads it. -/
theorem Underway.modifyNode (h : g.Underway) (mirrored : g.Mirrored) (stale : g.isStale id)
    (f : Node → Node) : (g.modifyNode id f).Underway where
  alert p i staleSource edge := by
    rw [isStale_modifyNode] at staleSource ⊢
    exact h.alert p i staleSource edge
  inStep := h.inStep_of_spared fun i live fresh => by
    rw [contains_modifyNode] at live
    rw [isStale_modifyNode] at fresh
    have other : i ≠ id := by
      rintro rfl
      simp [stale] at fresh
    refine ⟨live, fresh, by rw [node?_modifyNode, if_neg other], fun port o hread => ?_⟩
    apply slot_congr
    rw [node?_modifyNode, if_neg (h.ne_of_input? mirrored fresh hread stale)]

theorem Underway.rewire (h : g.Underway) (live : g.contains id) (port : Nat) (source : Output) :
    (g.rewire id port source).Underway where
  alert p i stale edge := by
    cases before : g.isStale p with
    | false => exact isStale_rewire_of_edge stale before edge
    | true =>
      obtain ⟨q, hedge⟩ := mem_successors.1 edge
      rcases mem_edges_rewire.1 hedge with ⟨old, -⟩ | ⟨-, new⟩
      · have reads : i ∈ g.successors p := mem_successors.2 ⟨q, old⟩
        exact isStale_rewire_of_isStale (h.alert p i before reads) id port source
      · obtain rfl : i = id := congrArg Edge.target new
        exact isStale_rewire_self live port source
  inStep := h.inStep_of_spared fun i liveAfter fresh => by
    have other : i ≠ id := by
      rintro rfl
      simp [isStale_rewire_self live] at fresh
    exact ⟨by simpa using liveAfter,
      isStale_eq_false_of_imp (isStale_rewire_of_isStale · id port source) fresh,
      by rw [node?_rewire, if_neg other], fun _ o _ => slot_rewire g id port source o⟩

/-- A node is marked before it is changed. -/
theorem Underway.edit (h : g.Underway) (mirrored : g.Mirrored) (live : g.contains id)
    {f : Node → Node} (inputs : ∀ node, g.node? id = some node → (f node).inputs = node.inputs) :
    ((g.markStale id).modifyNode id f).Underway ∧
      ((g.markStale id).modifyNode id f).Mirrored := by
  have marked := mirrored.of_sameLinks (SameSkeleton.markStale g id).sameLinks
  refine ⟨(h.markStale id).modifyNode marked (isStale_markStale_self live) f, ?_⟩
  refine marked.of_sameLinks (SameLinks.modifyNode fun node hnode => inputs node ?_)
  rwa [node?_markStale] at hnode

theorem Underway.leave (h : g.Underway) (mirrored : g.Mirrored) {call : Call}
    (corrects : call.Corrects g) :
    (call.leave .core g).Underway ∧ (call.leave .core g).Mirrored := by
  have left : call.Leaves .core g (call.leave .core g) := call.leaves .core g
  generalize call.leave .core g = g' at left ⊢
  cases left with
  | refused => exact ⟨h, mirrored⟩
  | setInput source read =>
    have live : g.contains _ := contains_of_input? (Option.some_get read).symm
    exact ⟨h.rewire live _ source, mirrored.rewire read source⟩
  | notDeclared o type =>
    exact ⟨h.markStale o.node, mirrored.of_sameLinks (SameSkeleton.markStale g o.node).sameLinks⟩
  | setOutputType type live => exact h.edit mirrored live fun _ _ => rfl
  | editNode f live => exact h.edit mirrored live fun node hnode => (corrects node hnode).1
  | addNode | addParameter | addConstant | addResult | notInferred | makeNode | inferNode
  | replaceNode | markStale | removeNode | removeUnreachable | inferStale => exact corrects.elim

/-- Corrections that close no cycle leave a graph in which inference can start. -/
theorem Resumable.after (h : g.Resumable) (corrects : AllAlong .core Call.Corrects g calls)
    (acyclic : (g.after .core calls).isCyclic = false) : (g.after .core calls).Resumable := by
  obtain ⟨underway, mirrored⟩ :=
    after_keeps (I := fun g => g.Underway ∧ g.Mirrored) corrects
      (fun _ _ corrects ⟨underway, mirrored⟩ => underway.leave mirrored corrects)
      ⟨h.toUnderway, h.mirrored⟩
  exact ⟨underway, mirrored, acyclic⟩

/-! ### Starting from elsewhere -/

theorem SameProgram.node?_eq (same : g.SameProgram h)
    (outputs : ∀ id node node', g.node? id = some node → h.node? id = some node' →
      node'.outputs = node.outputs) (id : NodeId) : h.node? id = g.node? id := by
  cases hnode : g.node? id with
  | none => exact same.node?_eq_none hnode
  | some node =>
    obtain ⟨node', hnode', bare⟩ := same.exists_node? hnode
    have produced := outputs id node node' hnode hnode'
    rw [hnode']
    cases node
    cases node'
    simp_all [Node.bare]

theorem sameProgram_of_inferStale {answer : Except Error Nat}
    (run : (GraphM.inferStale .core).runOn g = (answer, g')) : g.SameProgram g' := by
  have program := sameProgram_inferStale g
  rwa [run] at program

theorem SameProgram.symm (same : g.SameProgram h) : h.SameProgram g where
  name := same.name.symm
  bare id := (same.bare id).symm
  declared id node' node hnode' hnode op := by
    have bare := same.bare id
    rw [hnode, hnode', Option.map_some, Option.map_some, Option.some.injEq] at bare
    have op' : node.op = "Parameter" :=
      (congrArg Node.op bare : node'.bare.op = node.bare.op).symm.trans op
    exact (same.declared id node node' hnode hnode' op').symm

/-- What inference comes to does not depend on what was known and what was stale at first. -/
theorem Resumable.exists_inferStale_of_sameProgram (start : g.Resumable) (other : h.Resumable)
    (same : g.SameProgram h) (run : (GraphM.inferStale .core).runOn g = (.ok n, g')) :
    ∃ m h', (GraphM.inferStale .core).runOn h = (.ok m, h') ∧ ∀ id, h'.node? id = g'.node? id := by
  have program := sameProgram_of_inferStale run
  have evaluates (id : NodeId) (live : h.contains id) :
      ∃ slots, h.evaluate .core h.size id = .ok slots := by
    rw [same.contains, ← program.contains] at live
    obtain ⟨node, hnode⟩ := contains_iff_exists_node?.1 live
    exact ⟨node.outputs, by rw [same.evaluate_eq, same.size, start.evaluate_eq run hnode]⟩
  obtain ⟨ranked, deep⟩ := other.ranked
  obtain ⟨m, h', run'⟩ := other.exists_inferStale _ ranked h.size deep evaluates
  have program' := sameProgram_of_inferStale run'
  refine ⟨m, h', run', ((program.symm.trans same).trans program').node?_eq ?_⟩
  intro id node node' hnode hnode'
  have result := other.evaluate_eq run' hnode'
  rw [same.evaluate_eq, same.size, start.evaluate_eq run hnode] at result
  exact (Except.ok.inj result).symm

/-- The outputs that inference finds are the only ones that are in step throughout. -/
theorem Resumable.node?_eq_of_current (start : g.Resumable) (same : g.SameProgram h)
    (current : h.Current .core) (run : (GraphM.inferStale .core).runOn g = (.ok n, g'))
    (id : NodeId) : h.node? id = g'.node? id := by
  have program := sameProgram_of_inferStale run
  obtain ⟨ranked, deep⟩ := start.ranked
  refine (program.symm.trans same).node?_eq ?_ id
  intro id node node' hnode hnode'
  have live : g.contains id := (same.contains id).symm.trans (contains_of_node? hnode')
  have held := current.evaluate_eq (ranked.of_sameProgram same) (deep id live) hnode'
  rw [same.evaluate_eq, start.evaluate_eq run hnode] at held
  exact (Except.ok.inj held).symm

/-- Inference can start where everything is stale. -/
theorem Resumable.setStale (h : g.Resumable) : (g.setStale g.ids).Resumable := by
  have same := SameSkeleton.setStale g g.ids
  have stale {id : NodeId} (live : (g.setStale g.ids).contains id) :
      (g.setStale g.ids).isStale id := by
    rw [same.contains] at live
    simp [isStale_setStale, live, mem_ids]
  refine ⟨⟨fun p i _ edge => ?_, fun id live fresh => ?_⟩, h.mirrored.of_sameLinks same.sameLinks,
    same.isCyclic.2 h.acyclic⟩
  · obtain ⟨port, hedge⟩ := mem_successors.1 edge
    exact stale ((g.setStale g.ids).edges_live _ hedge).2
  · simp [stale live] at fresh

/-- Inference from scratch finds the same. -/
theorem Resumable.exists_inferAll (start : g.Resumable)
    (run : (GraphM.inferStale .core).runOn g = (.ok n, g')) :
    ∃ changed h, (GraphM.inferAll .core).runOn g = (.ok changed, h) ∧
      ∀ id, h.node? id = g'.node? id := by
  have same : g.SameProgram (g.setStale g.ids) :=
    .of_node?_eq rfl fun id => node?_setStale g g.ids id
  obtain ⟨m, h, all, nodes⟩ := start.exists_inferStale_of_sameProgram start.setStale same run
  refine ⟨m > 0, h, ?_, nodes⟩
  rw [GraphM.inferAll, GraphM.runOn_bind, GraphM.runOn_modify]
  simp only [GraphM.runOn_bind, all, GraphM.runOn_pure]

/-! ### The main statement -/

/-- Inference changes nothing but slots and what is stale, and no declared type. If it succeeds,
nothing is stale and every node has the outputs to which the graph evaluates. No others are in step
throughout, and inference of the same nodes finds them whatever is known and stale at first. If it
fails, it can be resumed: once corrections have made it succeed, inference of the corrected graph
from scratch succeeds as well and finds the same. -/
theorem inferStale_resumable (resumable : g.Resumable) :
    ∃ answer g', (GraphM.inferStale .core).runOn g = (answer, g') ∧
      g'.skeleton = g.skeleton ∧ g.SameProgram g' ∧
      match answer with
      | .ok _ =>
        (∀ id, g'.isStale id = false) ∧
        (∀ id node, g'.node? id = some node →
          g.evaluate .core g.size id = .ok node.outputs) ∧
        (∀ h, g.SameProgram h → h.Current .core → ∀ id, h.node? id = g'.node? id) ∧
        ∀ h, g.SameProgram h → h.Resumable →
          ∃ m h', (GraphM.inferStale .core).runOn h = (.ok m, h') ∧
            ∀ id, h'.node? id = g'.node? id
      | .error _ =>
        g'.Resumable ∧
        ∀ calls, AllAlong .core Call.Corrects g' calls → (g'.after .core calls).isCyclic = false →
          ∀ n g'', (GraphM.inferStale .core).runOn (g'.after .core calls) = (.ok n, g'') →
            ∃ changed h, (GraphM.inferAll .core).runOn (g'.after .core calls) = (.ok changed, h) ∧
              ∀ id, h.node? id = g''.node? id := by
  rcases run : (GraphM.inferStale .core).runOn g with ⟨answer, g'⟩
  have skeleton : g'.skeleton = g.skeleton := by
    have same := skeleton_inferStale .core g
    rwa [run] at same
  refine ⟨answer, g', rfl, skeleton, sameProgram_of_inferStale run, ?_⟩
  cases answer with
  | ok n =>
    refine ⟨isStale_eq_false_of_inferStale resumable.acyclic run,
      fun _ _ => resumable.evaluate_eq run,
      fun h same current => resumable.node?_eq_of_current same current run,
      fun h same other => resumable.exists_inferStale_of_sameProgram other same run⟩
  | error e =>
    have later := resumable.inferStale
    rw [run] at later
    exact ⟨later, fun calls corrects acyclic n g'' again =>
      (later.after corrects acyclic).exists_inferAll again⟩

/-- The sum of two parameters, one of them rectified before; its type is then declared anew. -/
def mismatch : List Call :=
  [.addParameter "x" ⟨.f32, .ofExtents [2, 3]⟩, .addParameter "y" ⟨.f32, .ofExtents [3]⟩,
    .makeNode { op := "Relu", inputs := [⟨0, 0⟩] },
    .makeNode { op := "Add", inputs := [⟨2, 0⟩, ⟨1, 0⟩] },
    .makeNode { op := "Ceiling", inputs := [⟨3, 0⟩] }, .inferStale]

/-- The graph with another type of the first parameter, which does not fit the second one. -/
def mismatched : Graph :=
  ((empty "f").after .core mismatch).after .core [.setOutputType ⟨0, 0⟩ ⟨.f32, .ofExtents [2, 5]⟩]

theorem resumable_mismatched : mismatched.Resumable := by
  have fresh : ∀ id, ((empty "f").after .core mismatch).isStale id = false :=
    hasStale_eq_false_iff.1 (by decide +kernel)
  have current : ((empty "f").after .core mismatch).Current .core := by decide +kernel
  have linked : ((empty "f").after .core mismatch).Linked :=
    (linked_empty "f").after (by decide +kernel)
  have start : ((empty "f").after .core mismatch).Resumable :=
    ⟨⟨alert_of_fresh fresh, fun id live _ => current id live⟩, linked.toMirrored,
      by decide +kernel⟩
  exact start.after ⟨trivial, trivial⟩ (by decide +kernel)

/-- The graph that the failed inference leaves, with a type of the second parameter that fits. -/
def corrected : Graph :=
  ((GraphM.inferStale .core).runOn mismatched).2.after .core
    [.setOutputType ⟨1, 0⟩ ⟨.f32, .ofExtents [5]⟩]

/-- Inference fails at the sum, after the rectified parameter. Once the second parameter fits, it
goes on from there. -/
theorem exists_inferAll_corrected :
    ((GraphM.inferStale .core).runOn mismatched).2.isStale 2 = false ∧
      ((GraphM.inferStale .core).runOn mismatched).2.isStale 3 ∧
      ∃ n g', (GraphM.inferStale .core).runOn corrected = (.ok n, g') ∧
        ∃ changed h, (GraphM.inferAll .core).runOn corrected = (.ok changed, h) ∧
          ∀ id, h.node? id = g'.node? id := by
  refine ⟨by decide +kernel, by decide +kernel, ?_⟩
  have failed : ((GraphM.inferStale .core).runOn mismatched).1.toBool = false := by decide +kernel
  have succeeded : ((GraphM.inferStale .core).runOn corrected).1.toBool = true := by
    decide +kernel
  obtain ⟨answer, g₁, run, -, -, promise⟩ := inferStale_resumable resumable_mismatched
  rcases again : (GraphM.inferStale .core).runOn corrected with ⟨_ | n, g'⟩
  · rw [again] at succeeded
    cases succeeded
  · cases answer with
    | ok m =>
      rw [run] at failed
      cases failed
    | error e =>
      obtain rfl : ((GraphM.inferStale .core).runOn mismatched).2 = g₁ := congrArg Prod.snd run
      exact ⟨n, g', rfl, promise.2 [.setOutputType ⟨1, 0⟩ ⟨.f32, .ofExtents [5]⟩]
        ⟨trivial, trivial⟩ (by decide +kernel) n g' again⟩

end Graph

end TensorGraph

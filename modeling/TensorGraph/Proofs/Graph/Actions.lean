import TensorGraph.Proofs.Graph.Linked

/-!
# What actions leave behind

Each action of `GraphM` is carried out in one piece: what it answers and which graph it leaves, in
terms of the changes of `Graph`. An action that finds its arguments missing leaves the graph alone.
-/

namespace TensorGraph.GraphM

variable {g : Graph} {id old new : NodeId} {port : Nat} {node oldNode newNode : Node} {o : Output}

/-- A run whose answer is known. -/
theorem eq_ok_of_fst_eq {α : Type} {run : Except Error α × Graph} {a : α} (h : run.1 = .ok a) :
    run = (.ok a, run.2) := Prod.ext h rfl

/-- The answer of a run that succeeds, with what is of interest in the graph that it leaves. -/
def outcome? {α β : Type} (view : Graph → β) (x : GraphM α) (g : Graph) : Option (α × β) :=
  match x.runOn g with
  | (.ok a, g') => some (a, view g')
  | (.error _, _) => none

theorem outcome?_eq_some_iff {α β : Type} {view : Graph → β} {x : GraphM α} {a : α} {b : β} :
    outcome? view x g = some (a, b) ↔ ∃ g', x.runOn g = (.ok a, g') ∧ view g' = b := by
  rw [outcome?]
  rcases x.runOn g with ⟨e | a', g'⟩ <;> simp

/-- A sequence of two actions succeeds if each of them does. -/
theorem runOn_bind_eq_ok_iff {α β : Type} {x : GraphM α} {f : α → GraphM β} {b : β} {g' : Graph} :
    (x >>= f).runOn g = (.ok b, g') ↔
      ∃ a g₁, x.runOn g = (.ok a, g₁) ∧ (f a).runOn g₁ = (.ok b, g') := by
  rw [runOn_bind]
  rcases x.runOn g with ⟨e | a, g₁⟩ <;> simp

theorem runOn_pure_eq_ok_iff {α : Type} {a a' : α} {g' : Graph} :
    (pure a : GraphM α).runOn g = (.ok a', g') ↔ a = a' ∧ g = g' := by
  simp

theorem runOn_ask_eq_ok_iff {α : Type} {query : Graph → Except Error α} {a : α} {g' : Graph} :
    (ask query).runOn g = (.ok a, g') ↔ query g = .ok a ∧ g = g' := by
  simp

/-! ### Insertion -/

@[simp] theorem runOn_addNode (node : Node) (g : Graph) :
    (addNode node).runOn g = (.ok g.nextId, g.insert node) := rfl

/-- The node of a constant. -/
def constantNode (t : Tensor) : Node where
  op := "Constant"
  outputs := [{ element := t.elementType, shape := t.shape, value := some t }]
  constant := some t

theorem runOn_addConstant (t : Tensor) (g : Graph) :
    (addConstant t).runOn g = (.ok g.nextId, g.insert (constantNode t)) := rfl

/-- The node of an output of the graph. -/
def resultNode (source : Output) (slot : Slot) : Node where
  op := "Result"
  inputs := [source]
  outputs := [.ofType slot.toSlotType]

theorem runOn_addResult (source : Output) (g : Graph) :
    (addResult source).runOn g =
      match g.slot source with
      | .error e => (.error e, g)
      | .ok slot =>
        (.ok g.nextId,
          { g.insert (resultNode source slot) with results := g.results ++ [g.nextId] }) := by
  simp only [addResult]
  rw [runOn_bind, runOn_ask]
  cases g.slot source <;> rfl

/-! ### Changes of a node -/

theorem node_eq_error (h : g.node? id = none) :
    g.node id = .error (.structural (.nodeMissing id)) := by
  rw [Graph.node, h]

theorem runOn_editNode (id : NodeId) (f : Node → Node) (g : Graph) :
    (editNode id f).runOn g =
      match g.node? id with
      | none => (.error (.structural (.nodeMissing id)), g)
      | some _ => (.ok (), (g.markStale id).modifyNode id f) := by
  simp only [editNode]
  rw [runOn_bind, runOn_ask, Graph.node]
  cases g.node? id <;> rfl

theorem runOn_setInput (id : NodeId) (port : Nat) (source : Output) (g : Graph) :
    (setInput id port source).runOn g =
      match g.node? id with
      | none => (.error (.structural (.nodeMissing id)), g)
      | some node =>
        if port < node.inputs.length then (.ok (), g.rewire id port source)
        else (.error (.structural (.portOutOfRange port id node.inputs.length)), g) := by
  simp only [setInput]
  rw [runOn_bind, runOn_ask, Graph.node]
  cases g.node? id with
  | none => rfl
  | some node =>
    by_cases h : port < node.inputs.length
    · simp [h]
    · simp [h]

theorem runOn_setInput_of_input? (h : (g.input? id port).isSome) (source : Output) :
    (setInput id port source).runOn g = (.ok (), g.rewire id port source) := by
  obtain ⟨o, ho⟩ := Option.isSome_iff_exists.1 h
  obtain ⟨node, hnode, hport⟩ := Graph.input?_eq_some_iff.1 ho
  rw [runOn_setInput, hnode]
  simp [(List.getElem?_eq_some_iff.1 hport).1]

/-- The outputs of a node with the type of one declared. -/
def declare (slot : Nat) (type : SlotType) (outputs : List Slot) : List Slot :=
  outputs.set slot (.ofType type)

theorem runOn_setOutputType (o : Output) (type : SlotType) (g : Graph) :
    (setOutputType o type).runOn g =
      match g.node? o.node with
      | none => (.error (.structural (.nodeMissing o.node)), g)
      | some node =>
        if o.slot < node.outputs.length then
          (.ok (), (g.markStale o.node).modifyNode o.node fun node =>
            { node with outputs := declare o.slot type node.outputs })
        else (.error (.structural (.outputMissing o.node o.slot)), g.markStale o.node) := by
  simp only [setOutputType]
  rw [runOn_bind, runOn_editNode]
  cases h : g.node? o.node with
  | none => rfl
  | some node =>
    have same : (g.markStale o.node).modifyNode o.node id = g.markStale o.node :=
      Graph.modifyNode_self ..
    simp only [runOn_bind, runOn_ask, same, Graph.node, Graph.node?_markStale, h]
    split <;> rfl

/-! ### Replacement -/

/-- The inputs that read a slot of `old`, other than those of `new`. -/
def readers (g : Graph) (old new : NodeId) (slot : Nat) : List (NodeId × Nat) :=
  (g.consumers ⟨old, slot⟩).filter fun reader => reader.1 ≠ new

/-- Every change of an input that a replacement asks for, slot by slot. -/
def redirections (g : Graph) (old new : NodeId) (slots : List Nat) :
    List ((NodeId × Nat) × Output) :=
  slots.flatMap fun slot => (readers g old new slot).map (·, ⟨new, slot⟩)

theorem redirects_eq_ok_iff {outputs : Nat} {slots : List Nat}
    {changes : List ((NodeId × Nat) × Output)} :
    redirects g old new outputs slots = .ok changes ↔
      (∀ slot ∈ slots, outputs ≤ slot → readers g old new slot = []) ∧
        changes = redirections g old new slots := by
  induction slots generalizing changes with
  | nil =>
    rw [redirects]
    constructor
    · intro h
      exact ⟨by simp, (Except.ok.inj h).symm⟩
    · rintro ⟨_, rfl⟩
      rfl
  | cons slot rest ih =>
    rw [redirects]
    change (if outputs ≤ slot ∧ readers g old new slot ≠ [] then _ else _) = _ ↔ _
    by_cases narrow : outputs ≤ slot ∧ readers g old new slot ≠ []
    · rw [if_pos narrow]
      simp only [reduceCtorEq, false_iff, not_and]
      intro h
      exact absurd (h slot List.mem_cons_self narrow.1) narrow.2
    · rw [if_neg narrow]
      have wide : outputs ≤ slot → readers g old new slot = [] := by simpa using narrow
      cases hrest : redirects g old new outputs rest with
      | error e =>
        simp only [bind, Except.bind, reduceCtorEq, false_iff, not_and]
        intro h
        have done : redirects g old new outputs rest = .ok (redirections g old new rest) :=
          ih.2 ⟨fun slot hslot => h slot (List.mem_cons_of_mem _ hslot), rfl⟩
        simp [hrest] at done
      | ok later =>
        obtain ⟨hwide, rfl⟩ := ih.1 hrest
        simp only [bind, Except.bind, Except.ok.injEq, List.mem_cons, forall_eq_or_imp,
          redirections, List.flatMap_cons]
        constructor
        · intro h
          exact ⟨⟨wide, hwide⟩, h.symm⟩
        · rintro ⟨_, h⟩
          exact h.symm

/-- The changes of the inputs, one after the other. -/
def rewireAll (g : Graph) (changes : List ((NodeId × Nat) × Output)) : Graph :=
  changes.foldl (fun g change => g.rewire change.1.1 change.1.2 change.2) g

theorem rewireAll_cons (g : Graph) (change : (NodeId × Nat) × Output)
    (rest : List ((NodeId × Nat) × Output)) :
    rewireAll g (change :: rest) = rewireAll (g.rewire change.1.1 change.1.2 change.2) rest := rfl

theorem isSome_input?_rewire (h : (g.input? id port).isSome) (source : Output) (i : NodeId)
    (p : Nat) :
    ((g.rewire id port source).input? i p).isSome = (g.input? i p).isSome := by
  rw [Graph.input?_rewire h]
  split
  · next e =>
    rw [e.1, e.2, h]
    rfl
  · rfl

theorem runOn_forM_setInput {changes : List ((NodeId × Nat) × Output)}
    (h : ∀ change ∈ changes, (g.input? change.1.1 change.1.2).isSome) :
    (changes.forM fun (reader, source) => setInput reader.1 reader.2 source).runOn g =
      (.ok (), rewireAll g changes) := by
  induction changes generalizing g with
  | nil => rfl
  | cons change rest ih =>
    have first := h change List.mem_cons_self
    rw [List.forM_eq_forM, List.forM_cons, runOn_bind, runOn_setInput_of_input? first]
    apply ih
    intro later hlater
    rw [isSome_input?_rewire first]
    exact h later (List.mem_cons_of_mem _ hlater)

/-- The graph with `new` in the place of `old` among its outputs. -/
def redesignate (g : Graph) (old new : NodeId) : Graph :=
  { g with results := g.results.map fun id => if id = old then new else id }

/-- The node with a name, its own if it has one. -/
def rename (name : String) (node : Node) : Node :=
  { node with name := if node.name = "" then name else node.name }

/-- The graph after a replacement that redirects the given inputs. -/
def replaced (g : Graph) (old new : NodeId) (name : String)
    (changes : List ((NodeId × Nat) × Output)) : Graph :=
  ((redesignate (rewireAll g changes) old new).markStale new).modifyNode new (rename name)

theorem isSome_input?_of_mem_readers {slot : Nat} {reader : NodeId × Nat}
    (h : reader ∈ readers g old new slot) : (g.input? reader.1 reader.2).isSome := by
  obtain ⟨node, hnode, hinput, _⟩ := Graph.mem_consumers.1 (List.mem_filter.1 h).1
  rw [Graph.input?_eq_some_iff.2 ⟨node, hnode, hinput⟩]
  rfl

theorem mem_redirections {slots : List Nat} {change : (NodeId × Nat) × Output} :
    change ∈ redirections g old new slots ↔
      ∃ slot ∈ slots, change.1 ∈ readers g old new slot ∧ change.2 = ⟨new, slot⟩ := by
  simp only [redirections, List.mem_flatMap, List.mem_map]
  constructor
  · rintro ⟨slot, hslot, reader, hreader, rfl⟩
    exact ⟨slot, hslot, hreader, rfl⟩
  · rintro ⟨slot, hslot, hreader, e⟩
    exact ⟨slot, hslot, change.1, hreader, by rw [← e]⟩

theorem isSome_input?_of_mem_redirections {slots : List Nat} (change : (NodeId × Nat) × Output)
    (h : change ∈ redirections g old new slots) : (g.input? change.1.1 change.1.2).isSome := by
  obtain ⟨_, _, hreader, _⟩ := mem_redirections.1 h
  exact isSome_input?_of_mem_readers hreader

theorem node_of_mem_redirections {slots : List Nat} {change : (NodeId × Nat) × Output}
    (h : change ∈ redirections g old new slots) : change.2.node = new := by
  obtain ⟨_, _, _, e⟩ := mem_redirections.1 h
  rw [e]

theorem contains_rewireAll (changes : List ((NodeId × Nat) × Output)) (i : NodeId) :
    (rewireAll g changes).contains i = g.contains i := by
  induction changes generalizing g with
  | nil => rfl
  | cons change rest ih => rw [rewireAll_cons, ih, Graph.contains_rewire]

theorem runOn_replaceNode_of_redirects {changes : List ((NodeId × Nat) × Output)}
    (hold : g.node? old = some oldNode) (hnew : g.node? new = some newNode)
    (hchanges : redirects g old new newNode.outputs.length (List.range oldNode.outputs.length) =
      .ok changes) :
    (replaceNode old new).runOn g = (.ok (), replaced g old new oldNode.name changes) := by
  have inputs : ∀ change ∈ changes, (g.input? change.1.1 change.1.2).isSome := by
    rw [(redirects_eq_ok_iff.1 hchanges).2]
    exact isSome_input?_of_mem_redirections
  obtain ⟨node, hnode⟩ : ∃ node, (rewireAll g changes).node? new = some node :=
    Graph.contains_iff_exists_node?.1
      ((contains_rewireAll _ new).trans (Graph.contains_of_node? hnew))
  have kept : (redesignate (rewireAll g changes) old new).node? new = some node := hnode
  simp only [replaceNode]
  simp only [runOn_bind, runOn_ask, Graph.node, hold, hnew, hchanges, runOn_forM_setInput inputs,
    runOn_modify]
  change (editNode new (rename oldNode.name)).runOn (redesignate (rewireAll g changes) old new) = _
  rw [runOn_editNode, kept]
  rfl

/-- A replacement redirects every reader of the old node, or it fails and changes nothing. -/
theorem runOn_replaceNode (old new : NodeId) (g : Graph) :
    (∃ e, (replaceNode old new).runOn g = (.error e, g)) ∨
      ∃ oldNode newNode, g.node? old = some oldNode ∧ g.node? new = some newNode ∧
        (∀ slot < oldNode.outputs.length, newNode.outputs.length ≤ slot →
          readers g old new slot = []) ∧
        (replaceNode old new).runOn g = (.ok (), replaced g old new oldNode.name
          (redirections g old new (List.range oldNode.outputs.length))) := by
  cases hold : g.node? old with
  | none =>
    refine .inl ⟨.structural (.nodeMissing old), ?_⟩
    simp only [replaceNode, runOn_bind, runOn_ask, node_eq_error hold]
  | some oldNode =>
    cases hnew : g.node? new with
    | none =>
      refine .inl ⟨.structural (.nodeMissing new), ?_⟩
      simp only [replaceNode, runOn_bind, runOn_ask, Graph.node, hold, hnew]
    | some newNode =>
      cases hchanges : redirects g old new newNode.outputs.length
          (List.range oldNode.outputs.length) with
      | error e =>
        refine .inl ⟨e, ?_⟩
        simp only [replaceNode, runOn_bind, runOn_ask, Graph.node, hold, hnew, hchanges]
      | ok changes =>
        obtain ⟨wide, same⟩ := redirects_eq_ok_iff.1 hchanges
        refine .inr ⟨oldNode, newNode, rfl, rfl, fun slot h => wide slot (List.mem_range.2 h), ?_⟩
        rw [← same]
        exact runOn_replaceNode_of_redirects hold hnew hchanges

/-- A node can be replaced by one with as many outputs. -/
theorem runOn_replaceNode_of_length_eq (hold : g.node? old = some oldNode)
    (hnew : g.node? new = some newNode)
    (outputs : newNode.outputs.length = oldNode.outputs.length) :
    (replaceNode old new).runOn g = (.ok (), replaced g old new oldNode.name
      (redirections g old new (List.range oldNode.outputs.length))) := by
  refine runOn_replaceNode_of_redirects hold hnew (redirects_eq_ok_iff.2 ⟨?_, rfl⟩)
  intro slot hslot narrow
  exact absurd (List.mem_range.1 hslot) (by omega)

/-! ### Removal -/

/-- The graph without a node, what reads it marked. -/
def removed (g : Graph) (id : NodeId) : Graph :=
  ((g.successors id).foldl Graph.markStale g).vacate id

theorem runOn_removeNode (id : NodeId) (g : Graph) :
    (removeNode id).runOn g =
      match g.get? id with
      | none => (.error (.structural (.nodeMissing id)), removed g id)
      | some entry => (.ok entry, removed g id) := by
  simp only [removeNode]
  rw [runOn_bind, runOn_get]
  change (set (removed g id) >>= fun _ => match g.get? id with
    | none => throw _
    | some entry => pure entry : GraphM Entry).runOn g = _
  rw [runOn_bind, runOn_set]
  cases g.get? id <;> rfl

/-- Whether or not the node is there. -/
@[simp] theorem snd_runOn_removeNode (id : NodeId) (g : Graph) :
    ((removeNode id).runOn g).2 = removed g id := by
  rw [runOn_removeNode]
  cases g.get? id <;> rfl

@[simp] theorem runOn_removeUnreachable (g : Graph) :
    removeUnreachable.runOn g = (.ok g.dead.length, g.collect) := rfl

end TensorGraph.GraphM

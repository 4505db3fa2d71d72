import TensorGraph.Inference

/-!
# What changes do to the views

A graph is seen through its nodes (`Graph.node?`), their ages (`Graph.seq?`), the nodes that are
stale (`Graph.isStale`), its edges and its designated nodes. Here is what becomes of each view under
each change, so that what follows need not look into the arena.
-/

namespace TensorGraph

theorem Arena.mapIdx_congr {α : Type} {a : Arena α} {f f' : Nat → α → α}
    (h : ∀ i x, a.get? i = some x → f i x = f' i x) : a.mapIdx f = a.mapIdx f' := by
  have same : a.places.mapIdx (fun i => Option.map (f i)) =
      a.places.mapIdx fun i => Option.map (f' i) := by
    refine Array.ext (by simp) fun i hi _ => ?_
    rw [Array.size_mapIdx] at hi
    rw [Array.getElem_mapIdx, Array.getElem_mapIdx]
    cases hplace : a.places[i] with
    | none => rfl
    | some x =>
      rw [Option.map_some, Option.map_some,
        h i x (get?_eq_some_iff.2 (Array.getElem?_eq_some_iff.2 ⟨hi, hplace⟩))]
  simp only [mapIdx, same]

theorem Arena.mapIdx_mapIdx {α : Type} (a : Arena α) (f k : Nat → α → α) :
    (a.mapIdx f).mapIdx k = a.mapIdx fun i x => k i (f i x) := by
  simp only [Arena.mapIdx, Array.mapIdx_mapIdx, Option.map_comp_map]
  rfl

theorem Arena.mapIdx_eq_self {α : Type} {a : Arena α} {f : Nat → α → α}
    (h : ∀ i x, a.get? i = some x → f i x = x) : a.mapIdx f = a := by
  have kept : a.places.mapIdx (fun _ => Option.map fun x => x) = a.places :=
    Array.ext (by simp) fun i _ _ => by simp
  rw [mapIdx_congr h]
  simp only [mapIdx, kept]

/-- A walk may go on one step. -/
theorem Walk.snoc {next : NodeId → List NodeId} {seen : List NodeId} {a b c : NodeId}
    (h : Walk next seen a b) (edge : c ∈ next b) (clear : c ∉ seen) : Walk next seen a c := by
  induction h with
  | stay start => exact .step start edge (.stay clear)
  | step start first _ ih => exact .step start first (ih edge)

namespace Graph

variable {g : Graph} {id i : NodeId} {node : Node}

/-- How many nodes had been inserted before the node in a place. -/
def seq? (g : Graph) (id : NodeId) : Option Nat := (g.get? id).map Entry.seq

theorem contains_of_node? (h : g.node? id = some node) : g.contains id := by
  rw [← isSome_node?, h]
  rfl

theorem contains_iff_exists_node? : g.contains id ↔ ∃ node, g.node? id = some node := by
  rw [← isSome_node?, Option.isSome_iff_exists]

theorem node?_eq_none_iff : g.node? id = none ↔ g.contains id = false := by
  rw [← isSome_node?, Option.isSome_eq_false_iff, Option.isNone_iff_eq_none]

theorem contains_iff_exists_seq? : g.contains id ↔ ∃ seq, g.seq? id = some seq := by
  rw [← Option.isSome_iff_exists, seq?, Option.isSome_map]
  rfl

theorem seq?_eq_some_iff {seq : Nat} :
    g.seq? id = some seq ↔ ∃ entry, g.get? id = some entry ∧ entry.seq = seq :=
  Option.map_eq_some_iff

theorem contains_of_isStale (h : g.isStale id) : g.contains id := by
  obtain ⟨entry, hentry, _⟩ := (Option.any_eq_true ..).1 h
  exact contains_iff.2 ⟨entry, hentry⟩

theorem hasStale_eq_false_iff : g.hasStale = false ↔ ∀ id, g.isStale id = false := by
  rw [← Bool.not_eq_true, hasStale_iff, not_exists]
  simp only [Bool.not_eq_true]

theorem isStale_eq_false_of_contains (h : g.contains id = false) : g.isStale id = false := by
  cases stale : g.isStale id
  · rfl
  · exact absurd (contains_of_isStale stale) (by simp [h])

/-- If a change leaves nothing up to date that was stale, what is up to date was so before. -/
theorem isStale_eq_false_of_imp {g' : Graph} (h : g.isStale i → g'.isStale i)
    (fresh : g'.isStale i = false) : g.isStale i = false := by
  cases stale : g.isStale i
  · rfl
  · rw [h stale] at fresh
    cases fresh

/-- Two graphs with the same nodes have nodes in the same places. -/
theorem contains_congr {g' : Graph} (h : g'.node? id = g.node? id) :
    g'.contains id = g.contains id := by
  rw [← isSome_node?, ← isSome_node?, h]

/-! ### Insertion -/

theorem contains_nextId (g : Graph) : g.contains g.nextId = false := by
  simp [contains, get?_nextId]

theorem ne_nextId (h : g.contains id) : id ≠ g.nextId := by
  rintro rfl
  simp [contains_nextId] at h

theorem node?_insert (g : Graph) (node : Node) (id : NodeId) :
    (g.insert node).node? id = if id = g.nextId then some node else g.node? id := by
  simp only [node?]
  rw [get?_insert]
  split <;> rfl

theorem seq?_insert (g : Graph) (node : Node) (id : NodeId) :
    (g.insert node).seq? id = if id = g.nextId then some g.nextSeq else g.seq? id := by
  simp only [seq?]
  rw [get?_insert]
  split <;> rfl

theorem isStale_insert (g : Graph) (node : Node) (id : NodeId) :
    (g.insert node).isStale id = if id = g.nextId then true else g.isStale id := by
  simp only [isStale]
  rw [get?_insert]
  split <;> rfl

theorem contains_insert (g : Graph) (node : Node) (id : NodeId) :
    (g.insert node).contains id = if id = g.nextId then true else g.contains id := by
  simp only [contains]
  rw [get?_insert]
  split <;> rfl

theorem node?_insert_of_contains (h : g.contains id) (node : Node) :
    (g.insert node).node? id = g.node? id := by
  rw [node?_insert, if_neg (ne_nextId h)]

/-- The edges of a new node come from those of its inputs that exist once it is there. -/
theorem mem_edgesInto_iff {edge : Edge} :
    edge ∈ g.edgesInto node ↔
      edge.target = g.nextId ∧ (node.inputs[edge.port]?).map Output.node = some edge.source ∧
        (edge.source = g.nextId ∨ g.contains edge.source) := by
  obtain ⟨source, target, port⟩ := edge
  simp only [edgesInto, List.mem_filterMap, Prod.exists, Option.ite_none_right_eq_some,
    Option.some.injEq, Edge.mk.injEq, Option.map_eq_some_iff]
  constructor
  · rintro ⟨o, k, hread, live, rfl, rfl, rfl⟩
    exact ⟨rfl, ⟨o, (List.mem_zipIdx_iff_getElem?.1 hread), rfl⟩, live⟩
  · rintro ⟨rfl, ⟨o, hread, rfl⟩, live⟩
    exact ⟨o, port, List.mem_zipIdx_iff_getElem?.2 hread, live, rfl, rfl, rfl⟩

/-! ### Contents of a place -/

theorem node?_modifyNode (g : Graph) (id i : NodeId) (f : Node → Node) :
    (g.modifyNode id f).node? i = if i = id then (g.node? i).map f else g.node? i := by
  simp only [node?]
  rw [get?_modifyNode]
  split
  · rw [Option.map_map, Option.map_map]
    rfl
  · rfl

@[simp] theorem seq?_modifyNode (g : Graph) (id i : NodeId) (f : Node → Node) :
    (g.modifyNode id f).seq? i = g.seq? i := by
  simp only [seq?]
  rw [get?_modifyNode]
  split
  · rw [Option.map_map]
    rfl
  · rfl

@[simp] theorem isStale_modifyNode (g : Graph) (id i : NodeId) (f : Node → Node) :
    (g.modifyNode id f).isStale i = g.isStale i := by
  simp only [isStale]
  rw [get?_modifyNode]
  split
  · rw [Option.any_map]
  · rfl

@[simp] theorem contains_modifyNode (g : Graph) (id i : NodeId) (f : Node → Node) :
    (g.modifyNode id f).contains i = g.contains i := by
  simp only [contains]
  rw [get?_modifyNode]
  split <;> simp

@[simp] theorem edges_modifyNode (g : Graph) (id : NodeId) (f : Node → Node) :
    (g.modifyNode id f).edges = g.edges := rfl

@[simp] theorem parameters_modifyNode (g : Graph) (id : NodeId) (f : Node → Node) :
    (g.modifyNode id f).parameters = g.parameters := rfl

@[simp] theorem results_modifyNode (g : Graph) (id : NodeId) (f : Node → Node) :
    (g.modifyNode id f).results = g.results := rfl

theorem modifyNode_eq_self {f : Node → Node} (h : ∀ node, g.node? id = some node → f node = node) :
    g.modifyNode id f = g := by
  have same : (g.arena.modify id fun entry => { entry with node := f entry.node }) = g.arena := by
    refine Arena.mapIdx_eq_self fun j entry hentry => ?_
    by_cases e : j = id
    · simp only [e, if_true]
      rw [h entry.node (node?_eq_some_iff.2 ⟨entry, e ▸ hentry, rfl⟩)]
    · simp only [e, if_false]
  simp only [modifyNode, same]

/-- Nothing changes if a node is replaced by itself. -/
theorem modifyNode_self (g : Graph) (i : NodeId) : (g.modifyNode i fun node => node) = g :=
  modifyNode_eq_self fun _ _ => rfl

/-! ### Staleness -/

@[simp] theorem seq?_mapStale (g : Graph) (f : NodeId → Bool → Bool) (id : NodeId) :
    (g.mapStale f).seq? id = g.seq? id := by
  simp only [seq?]
  rw [get?_mapStale, Option.map_map]
  rfl

theorem isStale_mapStale (g : Graph) (f : NodeId → Bool → Bool) (id : NodeId) :
    (g.mapStale f).isStale id = (g.contains id && f id (g.isStale id)) := by
  simp only [isStale, contains]
  rw [get?_mapStale]
  cases g.get? id <;> simp

@[simp] theorem node?_setStale (g : Graph) (ids : List NodeId) (id : NodeId) :
    (g.setStale ids).node? id = g.node? id :=
  node?_mapStale ..

@[simp] theorem node?_clearStale (g : Graph) (id i : NodeId) :
    (g.clearStale id).node? i = g.node? i :=
  node?_mapStale ..

theorem isStale_setStale (g : Graph) (ids : List NodeId) (id : NodeId) :
    (g.setStale ids).isStale id = (g.isStale id || (g.contains id && ids.contains id)) := by
  rw [setStale, isStale_mapStale]
  cases h : g.contains id
  · simp [isStale_eq_false_of_contains h]
  · simp

theorem isStale_clearStale (g : Graph) (id i : NodeId) :
    (g.clearStale id).isStale i = (g.isStale i && i ≠ id) := by
  rw [clearStale, isStale_mapStale]
  cases h : g.isStale i
  · simp
  · simp [contains_of_isStale h]

@[simp] theorem seq?_markStale (g : Graph) (id i : NodeId) :
    (g.markStale id).seq? i = g.seq? i := by
  simp only [markStale]
  split
  · exact seq?_mapStale ..
  · rfl

@[simp] theorem edges_markStale (g : Graph) (id : NodeId) : (g.markStale id).edges = g.edges := by
  simp only [markStale]
  split <;> rfl

@[simp] theorem parameters_markStale (g : Graph) (id : NodeId) :
    (g.markStale id).parameters = g.parameters := by
  simp only [markStale]
  split <;> rfl

@[simp] theorem results_markStale (g : Graph) (id : NodeId) :
    (g.markStale id).results = g.results := by
  simp only [markStale]
  split <;> rfl

@[simp] theorem contains_markStale (g : Graph) (id i : NodeId) :
    (g.markStale id).contains i = g.contains i :=
  contains_congr (node?_markStale ..)

/-- What is stale stays so when more is marked. -/
theorem isStale_markStale_of_isStale (h : g.isStale i) (id : NodeId) :
    (g.markStale id).isStale i := by
  cases hid : g.contains id
  · rwa [markStale, if_neg (by simp [hid])]
  · exact (isStale_markStale hid).2 (.inl h)

theorem isStale_markStale_self (h : g.contains id) : (g.markStale id).isStale id := by
  rw [isStale_markStale h]
  by_cases stale : g.isStale id
  · exact .inl stale
  · exact .inr ⟨h, .stay (by rwa [mem_staleIds])⟩

/-- What reads a node that is marked is marked as well. -/
theorem isStale_markStale_of_edge {p : NodeId} (h : (g.markStale id).isStale p)
    (fresh : g.isStale p = false) (edge : i ∈ g.successors p) : (g.markStale id).isStale i := by
  cases hid : g.contains id
  · rw [markStale, if_neg (by simp [hid]), fresh] at h
    cases h
  · obtain ⟨port, hedge⟩ := mem_successors.1 edge
    rw [isStale_markStale hid] at h ⊢
    by_cases stale : g.isStale i
    · exact .inl stale
    · obtain ⟨_, walk⟩ := h.resolve_left (by simp [fresh])
      exact .inr ⟨(g.edges_live _ hedge).2, walk.snoc edge (by rwa [mem_staleIds])⟩

/-- A reader of a node that was fresh is marked with it. -/
theorem isStale_markStale_successor (hid : g.contains id) (fresh : g.isStale id = false)
    (edge : i ∈ g.successors id) : (g.markStale id).isStale i :=
  isStale_markStale_of_edge (isStale_markStale_self hid) fresh edge

/-- Only what a walk along the edges leads to from the node is marked. -/
theorem isStale_of_isStale_markStale (h : (g.markStale id).isStale i) :
    g.isStale i ∨ g.contains i ∧ Walk g.successors [] id i := by
  cases hid : g.contains id
  · rw [markStale, if_neg (by simp [hid])] at h
    exact .inl h
  · rcases (isStale_markStale hid).1 h with stale | ⟨live, walk⟩
    · exact .inl stale
    · exact .inr ⟨live, walk.mono (by simp)⟩

theorem node?_foldl_markStale {α : Type} (f : α → NodeId) (marks : List α) (g : Graph)
    (i : NodeId) :
    (marks.foldl (fun g mark => g.markStale (f mark)) g).node? i = g.node? i := by
  induction marks generalizing g with
  | nil => rfl
  | cons mark rest ih => rw [List.foldl_cons, ih, node?_markStale]

/-! ### Inputs -/

@[simp] theorem node?_reconnect (g : Graph) (id : NodeId) (port : Nat) (source i : NodeId) :
    (g.reconnect id port source).node? i = g.node? i := by
  simp [node?]

@[simp] theorem seq?_reconnect (g : Graph) (id : NodeId) (port : Nat) (source i : NodeId) :
    (g.reconnect id port source).seq? i = g.seq? i := by
  simp [seq?]

@[simp] theorem isStale_reconnect (g : Graph) (id : NodeId) (port : Nat) (source i : NodeId) :
    (g.reconnect id port source).isStale i = g.isStale i := by
  simp [isStale]

@[simp] theorem contains_reconnect (g : Graph) (id : NodeId) (port : Nat) (source i : NodeId) :
    (g.reconnect id port source).contains i = g.contains i := by
  simp [contains]

@[simp] theorem parameters_reconnect (g : Graph) (id : NodeId) (port : Nat) (source : NodeId) :
    (g.reconnect id port source).parameters = g.parameters := by
  simp only [reconnect]
  split <;> rfl

@[simp] theorem results_reconnect (g : Graph) (id : NodeId) (port : Nat) (source : NodeId) :
    (g.reconnect id port source).results = g.results := by
  simp only [reconnect]
  split <;> rfl

theorem mem_edgesBeside {port : Nat} {edge : Edge} :
    edge ∈ g.edgesBeside id port ↔ edge ∈ g.edges ∧ ¬(edge.target = id ∧ edge.port = port) := by
  by_cases h : edge.target = id <;> simp [edgesBeside, h]

theorem node?_rewire (g : Graph) (id : NodeId) (port : Nat) (source : Output) (i : NodeId) :
    (g.rewire id port source).node? i =
      if i = id then
        (g.node? i).map fun node => { node with inputs := node.inputs.set port source }
      else g.node? i := by
  rw [rewire, node?_modifyNode, node?_markStale, node?_reconnect]

@[simp] theorem seq?_rewire (g : Graph) (id : NodeId) (port : Nat) (source : Output) (i : NodeId) :
    (g.rewire id port source).seq? i = g.seq? i := by
  simp [rewire]

@[simp] theorem contains_rewire (g : Graph) (id : NodeId) (port : Nat) (source : Output)
    (i : NodeId) : (g.rewire id port source).contains i = g.contains i := by
  simp [rewire]

@[simp] theorem edges_rewire (g : Graph) (id : NodeId) (port : Nat) (source : Output) :
    (g.rewire id port source).edges = (g.reconnect id port source.node).edges := by
  simp [rewire]

@[simp] theorem parameters_rewire (g : Graph) (id : NodeId) (port : Nat) (source : Output) :
    (g.rewire id port source).parameters = g.parameters := by
  simp [rewire]

@[simp] theorem results_rewire (g : Graph) (id : NodeId) (port : Nat) (source : Output) :
    (g.rewire id port source).results = g.results := by
  simp [rewire]

theorem isStale_rewire_of_isStale (h : g.isStale i) (id : NodeId) (port : Nat) (source : Output) :
    (g.rewire id port source).isStale i := by
  rw [rewire, isStale_modifyNode]
  exact isStale_markStale_of_isStale (by simpa using h) id

theorem isStale_rewire_self (h : g.contains id) (port : Nat) (source : Output) :
    (g.rewire id port source).isStale id := by
  rw [rewire, isStale_modifyNode]
  exact isStale_markStale_self (by simpa using h)

/-- Changing an input leaves all outputs alone. -/
@[simp] theorem slot_rewire (g : Graph) (id : NodeId) (port : Nat) (source o : Output) :
    (g.rewire id port source).slot o = g.slot o := by
  simp only [slot, Graph.node]
  rw [node?_rewire]
  by_cases e : o.node = id
  · rw [if_pos e]
    cases g.node? o.node <;> rfl
  · rw [if_neg e]

/-- What reads a node that has become stale is stale as well. -/
theorem isStale_rewire_of_edge {p : NodeId} {port : Nat} {source : Output}
    (h : (g.rewire id port source).isStale p) (fresh : g.isStale p = false)
    (edge : i ∈ (g.rewire id port source).successors p) : (g.rewire id port source).isStale i := by
  rw [successors, edges_rewire, ← successors] at edge
  rw [rewire, isStale_modifyNode] at h ⊢
  exact isStale_markStale_of_edge h (by simpa using fresh) edge

/-- What becomes stale is the node whose input changes and what is computed from it. -/
theorem isStale_of_isStale_rewire {source : Output} (h : (g.rewire id port source).isStale i) :
    g.isStale i ∨ Walk (g.rewire id port source).successors [] id i := by
  rw [rewire, isStale_modifyNode] at h
  rcases isStale_of_isStale_markStale h with stale | ⟨_, walk⟩
  · exact .inl (by simpa using stale)
  · have same : (g.rewire id port source).successors =
        (g.reconnect id port source.node).successors := by
      funext i
      rw [successors, successors, edges_rewire]
    exact .inr (same ▸ walk)

/-! ### Removal -/

theorem node?_vacate (g : Graph) (id i : NodeId) :
    (g.vacate id).node? i = if i = id then none else g.node? i := by
  simp only [node?]
  rw [get?_vacate]
  split <;> rfl

theorem seq?_vacate (g : Graph) (id i : NodeId) :
    (g.vacate id).seq? i = if i = id then none else g.seq? i := by
  simp only [seq?]
  rw [get?_vacate]
  split <;> rfl

theorem mem_edges_vacate {edge : Edge} :
    edge ∈ (g.vacate id).edges ↔ edge ∈ g.edges ∧ edge.source ≠ id ∧ edge.target ≠ id := by
  simp [vacate]

theorem get?_foldl_vacate (g : Graph) (ids : List NodeId) (i : NodeId) :
    (ids.foldl vacate g).get? i = if i ∈ ids then none else g.get? i := by
  induction ids generalizing g with
  | nil => simp
  | cons id rest ih =>
    rw [List.foldl_cons, ih, get?_vacate]
    by_cases h : i ∈ rest <;> by_cases e : i = id <;> simp [h, e]

theorem node?_foldl_vacate (g : Graph) (ids : List NodeId) (i : NodeId) :
    (ids.foldl vacate g).node? i = if i ∈ ids then none else g.node? i := by
  simp only [node?]
  rw [get?_foldl_vacate]
  split <;> rfl

theorem seq?_foldl_vacate (g : Graph) (ids : List NodeId) (i : NodeId) :
    (ids.foldl vacate g).seq? i = if i ∈ ids then none else g.seq? i := by
  simp only [seq?]
  rw [get?_foldl_vacate]
  split <;> rfl

theorem isStale_foldl_vacate (g : Graph) (ids : List NodeId) (i : NodeId) :
    (ids.foldl vacate g).isStale i = if i ∈ ids then false else g.isStale i := by
  simp only [isStale]
  rw [get?_foldl_vacate]
  split <;> rfl

theorem contains_foldl_vacate (g : Graph) (ids : List NodeId) (i : NodeId) :
    (ids.foldl vacate g).contains i = if i ∈ ids then false else g.contains i := by
  simp only [contains]
  rw [get?_foldl_vacate]
  split <;> rfl

theorem mem_edges_foldl_vacate {ids : List NodeId} {edge : Edge} :
    edge ∈ (ids.foldl vacate g).edges ↔
      edge ∈ g.edges ∧ edge.source ∉ ids ∧ edge.target ∉ ids := by
  induction ids generalizing g with
  | nil => simp
  | cons id rest ih =>
    rw [List.foldl_cons, ih, mem_edges_vacate]
    simp only [List.mem_cons, not_or]
    constructor
    · rintro ⟨⟨h, source, target⟩, sources, targets⟩
      exact ⟨h, ⟨source, sources⟩, target, targets⟩
    · rintro ⟨h, ⟨source, sources⟩, target, targets⟩
      exact ⟨⟨h, source, target⟩, sources, targets⟩

theorem nodup_edges_foldl_vacate (h : g.edges.Nodup) (ids : List NodeId) :
    (ids.foldl vacate g).edges.Nodup := by
  induction ids generalizing g with
  | nil => exact h
  | cons id rest ih => exact ih (h.filter _)

theorem designated_foldl_vacate (g : Graph) (ids : List NodeId) :
    (ids.foldl vacate g).parameters = g.parameters.filter (· ∉ ids) ∧
      (ids.foldl vacate g).results = g.results.filter (· ∉ ids) := by
  induction ids generalizing g with
  | nil => exact ⟨by simp [List.filter_eq_self.2], by simp [List.filter_eq_self.2]⟩
  | cons id rest ih =>
    have merge (xs : List NodeId) :
        (xs.filter (· ≠ id)).filter (· ∉ rest) = xs.filter (· ∉ id :: rest) := by
      rw [List.filter_filter]
      congr 1
      funext x
      by_cases e : x = id <;> simp [e]
    exact ⟨(ih _).1.trans (merge _), (ih _).2.trans (merge _)⟩

/-! ### Outputs -/

theorem node?_update (g : Graph) (id : NodeId) (slots : List Slot) (i : NodeId) :
    (g.update id slots).node? i =
      if i = id then (g.node? i).map fun node => { node with outputs := slots } else g.node? i := by
  rw [update, node?_clearStale, node?_modifyNode]

@[simp] theorem seq?_update (g : Graph) (id : NodeId) (slots : List Slot) (i : NodeId) :
    (g.update id slots).seq? i = g.seq? i := by
  simp [update, clearStale]

@[simp] theorem contains_update (g : Graph) (id : NodeId) (slots : List Slot) (i : NodeId) :
    (g.update id slots).contains i = g.contains i := by
  rw [update, contains_congr (node?_clearStale ..), contains_modifyNode]

theorem isStale_update (g : Graph) (id : NodeId) (slots : List Slot) (i : NodeId) :
    (g.update id slots).isStale i = (g.isStale i && i ≠ id) := by
  rw [update, isStale_clearStale, isStale_modifyNode]

@[simp] theorem edges_update (g : Graph) (id : NodeId) (slots : List Slot) :
    (g.update id slots).edges = g.edges := rfl

@[simp] theorem parameters_update (g : Graph) (id : NodeId) (slots : List Slot) :
    (g.update id slots).parameters = g.parameters := rfl

@[simp] theorem results_update (g : Graph) (id : NodeId) (slots : List Slot) :
    (g.update id slots).results = g.results := rfl

end Graph

end TensorGraph

import TensorGraph.Proofs.Access.Lowering

/-!
# Lowering as a whole

What the group and the pass make of a valid graph of which every node has just been computed: an
isomorphic graph in which the wide accesses have their scalar form (`exists_lowers`). The graph
must not have a wide access among its parameters; one that has loses it, since a parameter that is
replaced does not pass on its role (`not_forall_exists_lowers`).
-/

namespace TensorGraph.MemoryAccess

variable {g g' : Graph} {φ : NodeId → NodeId} {id : NodeId} {node : Node} {op : String} {b : Bool}
  {own : Option Nat} {limit : Nat} {width : Int}

/-- The map carries a graph over to the one with the wide accesses in scalar form: node to node,
with all that reads them and all that they read, and parameters and results in order. -/
structure Lowering (g g' : Graph) (φ : NodeId → NodeId) : Prop where
  bijOn : Set.BijOn φ {id | g.contains id} {id | g'.contains id}
  /-- Other nodes stay where they are and differ at most in the labels of what they read. -/
  kept : ∀ id node, g.node? id = some node → scalarOp? node = none →
    φ id = id ∧ g'.node? id = some (node.relabel φ)
  lowered : ∀ id node op, g.node? id = some node → scalarOp? node = some op →
    ∃ scalar, g'.node? (φ id) = some scalar ∧ scalar.op = op ∧ scalar.name = node.name ∧
      scalar.inputs = node.inputs.map (Output.relabel φ) ∧ scalar.outputs = node.outputs ∧
      scalar.attributes.find? widthKey = some (.int 1) ∧
      ∀ key, key ≠ widthKey → scalar.attributes.find? key = node.attributes.find? key
  parameters : g'.parameters = g.parameters.map φ
  results : g'.results = g.results.map φ

/-! ### All places -/

/-- A sweep over all of a graph lowers every wide access. -/
theorem LoweredAt.relabelled_lowered (h : LoweredAt g.order g g' φ) (valid : g.Valid) :
    g.Relabelled φ (fun _ => lowered) g' :=
  h.relabelled.congr fun id _ hnode => by
    rw [loweredIn, if_pos (valid.mem_order (Graph.contains_of_node? hnode))]

theorem LoweredAt.lowering (h : LoweredAt g.order g g' φ) (valid : g.Valid) : Lowering g g' φ where
  bijOn := h.relabelled.bijOn
  kept id node hnode none := by
    have stays := h.fixed id node hnode (.inr none)
    have hnode' := (h.relabelled_lowered valid).node? id node hnode
    rw [stays, lowered_of_scalarOp?_eq_none none] at hnode'
    exact ⟨stays, hnode'⟩
  lowered id node op hnode hop := by
    have hnode' := (h.relabelled_lowered valid).node? id node hnode
    rw [lowered_of_scalarOp?_eq_some hop] at hnode'
    refine ⟨_, hnode', rfl, rfl, rfl, rfl, ?_, ?_⟩
    · exact (AttributeMap.find?_insert ..).trans (if_pos rfl)
    · intro key hkey
      exact (AttributeMap.find?_insert ..).trans (if_neg hkey)
  parameters := h.relabelled.parameters
  results := h.relabelled.results

theorem LoweredAt.scalarOp?_eq_none (h : LoweredAt g.order g g' φ) (valid : g.Valid)
    (hnode : g'.node? id = some node) : scalarOp? node = none := by
  obtain ⟨_, source, _, _, rfl⟩ := (h.relabelled_lowered valid).exists_node hnode
  rw [scalarOp?_relabel, scalarOp?_lowered]

/-! ### The group -/

theorem Lowerable.exists_lowering (h : Lowerable g) : ∃ g' φ, LoweredAt g.order g g' φ ∧
    ∀ own limit, 1 ≤ Option.getD own limit →
      ({ RuleGroup.lowerAccesses with limit := own }.run ⟨.core, b⟩ limit).runOn g =
        (.ok (g.order.any (isLowered g)), g') := by
  have nodup : ((RuleGroup.itinerary g).map Turn.id).Nodup := by
    rw [RuleGroup.map_id_itinerary]
    exact g.nodup_order
  obtain ⟨sweep, g', φ, swept, ending, changed, done⟩ :=
    h.offerAll (b := b) nodup fun _ => RuleGroup.seq?_of_mem_itinerary
  rw [RuleGroup.map_id_itinerary] at changed done
  refine ⟨g', φ, done, ?_⟩
  intro own limit wide
  rw [← changed]
  exact RuleGroup.runOn_run rfl wide swept ending

/-- Once all is lowered the group changes nothing any more. -/
theorem runOn_run_of_lowered (done : ∀ id node, g.node? id = some node → scalarOp? node = none)
    (wide : 1 ≤ own.getD limit) :
    ({ RuleGroup.lowerAccesses with limit := own }.run ⟨.core, b⟩ limit).runOn g =
      (.ok false, g) := by
  obtain ⟨sweep, swept, ending, changed⟩ :
      ∃ sweep, RuleGroup.offerAll ⟨.core, b⟩ RuleGroup.lowerAccesses.rules
        (RuleGroup.itinerary g) g =
        (sweep, g) ∧ sweep.ending = .finished ∧ sweep.changed = false := by
    apply RuleGroup.offerAll_of_match?_eq_none
    intro turn hturn
    obtain ⟨node, hnode⟩ := Graph.contains_iff_exists_node?.1
      (Graph.contains_iff_exists_seq?.2 ⟨_, RuleGroup.seq?_of_mem_itinerary hturn⟩)
    exact match?_eq_none hnode (done _ node hnode)
  rw [← changed]
  exact RuleGroup.runOn_run rfl wide swept ending

/-! ### Canonical form -/

/-- A common width is the width of every access, and there is one. -/
theorem of_commonWidth {first : Option (Int × String)} {nodes : List Node}
    (h : commonWidth first nodes = .ok (some width)) :
    (∀ own name, first = some (own, name) → own = width) ∧
      (∀ node ∈ nodes, isAccess node → MemoryAccess.width node = .ok width) ∧
      (first = none → ∃ node ∈ nodes, isAccess node) := by
  induction nodes generalizing first with
  | nil =>
    obtain ⟨⟨own, name⟩, rfl, rfl⟩ := Option.map_eq_some_iff.1 (Except.ok.inj h)
    refine ⟨?_, by simp, by simp⟩
    intro own' name' same
    rw [(Prod.mk.inj (Option.some.inj same)).1]
  | cons node rest ih =>
    rw [commonWidth] at h
    by_cases access : isAccess node
    · rw [if_pos access] at h
      obtain ⟨own, hown, h⟩ := bind_eq_ok_iff.1 h
      cases first with
      | none =>
        obtain ⟨same, widths, _⟩ := ih h
        obtain rfl := same own node.name rfl
        refine ⟨by simp, ?_, fun _ => ⟨node, List.mem_cons_self, access⟩⟩
        exact List.forall_mem_cons.2 ⟨fun _ => hown, widths⟩
      | some expected =>
        obtain ⟨expected, name⟩ := expected
        by_cases agrees : own = expected
        · simp only [if_pos agrees] at h
          obtain ⟨same, widths, _⟩ := ih h
          refine ⟨same, List.forall_mem_cons.2 ⟨fun _ => ?_, widths⟩, by simp⟩
          rw [hown, agrees, same expected name rfl]
        · simp only [if_neg agrees, throw_eq_ok_iff] at h
    · rw [if_neg access] at h
      obtain ⟨same, widths, exist⟩ := ih h
      refine ⟨same, List.forall_mem_cons.2 ⟨fun h => absurd h access, widths⟩, ?_⟩
      intro none
      obtain ⟨other, hmem, h⟩ := exist none
      exact ⟨other, List.mem_cons_of_mem _ hmem, h⟩

/-- Without accesses there is no common width. -/
theorem commonWidth_of_forall_not {nodes : List Node} (h : ∀ node ∈ nodes, isAccess node = false) :
    commonWidth none nodes = .ok none := by
  induction nodes with
  | nil => rfl
  | cons node rest ih =>
    obtain ⟨first, later⟩ := List.forall_mem_cons.1 h
    rw [commonWidth, first]
    exact ih later

theorem isWide_of_width (h : MemoryAccess.width node = .ok width) (wide : 1 < width) :
    isWide node := by
  simp only [MemoryAccess.width] at h
  simp only [isWide, AttributeMap.int?]
  split at h
  · next i hi =>
    split at h
    · obtain rfl := Except.ok.inj h
      simpa [hi] using wide
    · cases h
  · cases h
  · cases h

/-- In a valid graph of a common width above 1 every access is wide, and there is one. -/
theorem wide_of_canonicalWidth (valid : g.Valid) (h : canonicalWidth g = .ok (some width))
    (wide : 1 < width) :
    (∀ id node, g.node? id = some node → isAccess node → isWide node) ∧
      ∃ id node, g.node? id = some node ∧ isAccess node := by
  rw [canonicalWidth, mapError_eq_ok_iff] at h
  obtain ⟨_, widths, exist⟩ := of_commonWidth h
  constructor
  · intro id node hnode access
    refine isWide_of_width (widths node (List.mem_filterMap.2 ⟨id, ?_, hnode⟩) access) wide
    exact valid.mem_order (Graph.contains_of_node? hnode)
  · obtain ⟨node, hmem, access⟩ := exist rfl
    obtain ⟨id, _, hnode⟩ := List.mem_filterMap.1 hmem
    exact ⟨id, node, hnode, access⟩

/-! ### Counting -/

/-- The operator type that a node of the given type has once all accesses are scalar. -/
def scalarType (op : String) : String :=
  if op = load then scalarLoad else if op = store then scalarStore else op

theorem op_lowered (wide : isAccess node → isWide node) :
    (lowered node).op = scalarType node.op := by
  cases hop : scalarOp? node with
  | none =>
    obtain ⟨notLoad, notStore⟩ := scalarOp?_eq_none_iff.1 hop
    have other : ¬isAccess node := by
      intro access
      have e : node.op = load ∨ node.op = store := by simpa [isAccess] using access
      exact e.elim (fun e => notLoad ⟨e, wide access⟩) fun e => notStore ⟨e, wide access⟩
    rw [lowered_of_scalarOp?_eq_none hop]
    simp only [isAccess, Bool.or_eq_true, decide_eq_true_eq, not_or] at other
    rw [scalarType, if_neg other.1, if_neg other.2]
  | some op =>
    rw [lowered_of_scalarOp?_eq_some hop]
    obtain ⟨_, ⟨e, rfl⟩ | ⟨e, rfl⟩⟩ := scalarOp?_eq_some_iff.1 hop
    · rw [e]
      rfl
    · rw [e]
      rfl

theorem scalarType_eq_iff {s : String} :
    scalarType s = op ↔ s = op ∧ op ≠ load ∧ op ≠ store ∨
      s = load ∧ op = scalarLoad ∨ s = store ∧ op = scalarStore := by
  have apart : load ≠ store := by decide
  simp only [scalarType]
  by_cases loads : s = load
  · rw [if_pos loads]
    constructor
    · intro e
      exact .inr (.inl ⟨loads, e.symm⟩)
    · rintro (⟨e, notLoad, _⟩ | ⟨_, e⟩ | ⟨e, _⟩)
      · exact absurd (e.symm.trans loads) notLoad
      · exact e.symm
      · exact absurd (loads.symm.trans e) apart
  · rw [if_neg loads]
    by_cases stores : s = store
    · rw [if_pos stores]
      constructor
      · intro e
        exact .inr (.inr ⟨stores, e.symm⟩)
      · rintro (⟨e, _, notStore⟩ | ⟨e, _⟩ | ⟨_, e⟩)
        · exact absurd (e.symm.trans stores) notStore
        · exact absurd e loads
        · exact e.symm
    · rw [if_neg stores]
      simp only [loads, stores, false_and, or_false]
      constructor
      · rintro rfl
        exact ⟨rfl, loads, stores⟩
      · intro h
        exact h.1

theorem scalarType_ne (h : op = load ∨ op = store) (s : String) : scalarType s ≠ op := by
  intro e
  rcases scalarType_eq_iff.1 e with ⟨_, notLoad, notStore⟩ | ⟨_, rfl⟩ | ⟨_, rfl⟩
  · exact h.elim notLoad notStore
  · exact absurd h (by decide)
  · exact absurd h (by decide)

theorem scalarType_eq_scalarLoad_iff {s : String} :
    scalarType s = scalarLoad ↔ s = scalarLoad ∨ s = load := by
  have others : scalarLoad ≠ load ∧ scalarLoad ≠ store ∧ scalarLoad ≠ scalarStore := by decide
  simp [scalarType_eq_iff, others]

theorem scalarType_eq_scalarStore_iff {s : String} :
    scalarType s = scalarStore ↔ s = scalarStore ∨ s = store := by
  have others : scalarStore ≠ load ∧ scalarStore ≠ store ∧ scalarStore ≠ scalarLoad := by decide
  simp [scalarType_eq_iff, others]

/-- If all accesses are wide, as many nodes are of a type as are to be of it. -/
theorem countOp_lowered (h : g.Relabelled φ (fun _ => lowered) g')
    (wide : ∀ id node, g.node? id = some node → isAccess node → isWide node) (op : String) :
    g'.countOp op =
      g.ids.countP fun id => (g.node? id).any fun node => scalarType node.op = op := by
  rw [h.countOp]
  apply List.countP_congr
  intro id hid
  obtain ⟨node, hnode⟩ := Graph.contains_iff_exists_node?.1 (Graph.mem_ids.1 hid)
  simp [hnode, op_lowered (wide id node hnode)]

/-- Nodes of two types are counted together. -/
theorem countP_either (g : Graph) {p : String → Prop} [DecidablePred p] {a c : String}
    (either : ∀ s, p s ↔ s = a ∨ s = c) (apart : a ≠ c) :
    (g.ids.countP fun id => (g.node? id).any fun node => p node.op) =
      g.countOp a + g.countOp c := by
  rw [Graph.countOp_eq_countP, Graph.countOp_eq_countP, ← countP_or_eq_add]
  · apply List.countP_congr
    intro id _
    cases g.node? id with
    | none => simp
    | some node => simp [either]
  · intro id _ ha
    obtain ⟨node, hnode, e⟩ := (Option.any_eq_true ..).1 ha
    rw [hnode, Option.any_some]
    exact decide_eq_false fun e' => apart ((of_decide_eq_true e).symm.trans e')

/-- The accesses are counted as scalar ones, and all else as before. -/
structure ScalarCounts (g g' : Graph) : Prop where
  loads : g'.countOp load = 0
  stores : g'.countOp store = 0
  scalarLoads : g'.countOp scalarLoad = g.countOp scalarLoad + g.countOp load
  scalarStores : g'.countOp scalarStore = g.countOp scalarStore + g.countOp store
  others : ∀ op, op ∉ kinds.map Kind.op → g'.countOp op = g.countOp op

theorem scalarCounts_of_relabelled (h : g.Relabelled φ (fun _ => lowered) g')
    (wide : ∀ id node, g.node? id = some node → isAccess node → isWide node) :
    ScalarCounts g g' := by
  have count := countOp_lowered h wide
  have none (op : String) (h : op = load ∨ op = store) : g'.countOp op = 0 := by
    rw [count, List.countP_eq_zero]
    intro id _ hop
    obtain ⟨node, _, e⟩ := (Option.any_eq_true ..).1 hop
    exact scalarType_ne h node.op (of_decide_eq_true e)
  refine ⟨none _ (.inl rfl), none _ (.inr rfl), ?_, ?_, ?_⟩
  · rw [count, countP_either g (fun _ => scalarType_eq_scalarLoad_iff) (by decide)]
  · rw [count, countP_either g (fun _ => scalarType_eq_scalarStore_iff) (by decide)]
  · intro op other
    rw [count, Graph.countOp_eq_countP]
    simp only [kinds, List.map_cons, List.map_nil, List.mem_cons, List.not_mem_nil, or_false,
      not_or] at other
    have same (s : String) : scalarType s = op ↔ s = op := by simp [scalarType_eq_iff, other]
    simp only [same]

/-! ### The pass -/

variable {ctx : Context}

theorem runOn_lowerAccesses (h : canonicalWidth g = .ok (some width)) (wide : 1 < width) :
    ((Pass.lowerAccesses limit).run ctx).runOn g =
      ({ RuleGroup.lowerAccesses with limit := some limit }.run ctx 0).runOn g := by
  rw [Pass.lowerAccesses, GraphM.runOn_bind, GraphM.runOn_ask, h]
  simp only
  split
  · next e => cases e
  · next e =>
    obtain rfl := Option.some.inj e
    exact absurd wide (Int.lt_irrefl 1)
  · rfl

theorem runOn_lowerAccesses_of_none (h : canonicalWidth g = .ok none) :
    ((Pass.lowerAccesses limit).run ctx).runOn g = (.ok false, g) := by
  rw [Pass.lowerAccesses, GraphM.runOn_bind, GraphM.runOn_ask, h]
  rfl

/-- Once all accesses are scalar there is no width to agree on. -/
theorem canonicalWidth_of_relabelled (h : g.Relabelled φ (fun _ => lowered) g')
    (wide : ∀ id node, g.node? id = some node → isAccess node → isWide node) :
    canonicalWidth g' = .ok none := by
  have none : ∀ node ∈ g'.order.filterMap g'.node?, isAccess node = false := by
    intro node' hmem
    obtain ⟨_, _, hnode'⟩ := List.mem_filterMap.1 hmem
    obtain ⟨id, node, _, hnode, rfl⟩ := h.exists_node hnode'
    have op : ((lowered node).relabel φ).op = scalarType node.op := op_lowered (wide id node hnode)
    rw [isAccess, op, decide_eq_false (scalarType_ne (.inl rfl) _),
      decide_eq_false (scalarType_ne (.inr rfl) _)]
    rfl
  rw [canonicalWidth, commonWidth_of_forall_not none]
  rfl

/-- A graph of which every node has just been computed can be lowered if it is valid and none of its
parameters is a wide access. -/
theorem lowerable_of_inferAll {g₀ : Graph} {changed : Bool}
    (inferred : (GraphM.inferAll .core).runOn g₀ = (.ok changed, g)) (valid : g.Valid)
    (mirrored : g.Mirrored)
    (undesignated : ∀ id node, g.node? id = some node → id ∈ g.parameters → scalarOp? node = none) :
    Lowerable g where
  valid := valid
  mirrored := mirrored
  inferred id node op hnode _ := by
    obtain ⟨node', hnode', inStep⟩ := Graph.current_of_inferAll Registry.steady_core inferred
      valid.acyclic mirrored id (Graph.contains_of_node? hnode)
    obtain rfl := Option.some.inj (hnode.symm.trans hnode')
    exact inStep
  undesignated := undesignated

/-- Lowering carries the first graph over to the second one, which is valid and is not changed any
more. If the first one is in canonical form, no access is left that is not scalar, and there are as
many scalar ones more as there were others. -/
structure Lowers (b : Bool) (g g' : Graph) (φ : NodeId → NodeId) : Prop where
  lowering : Lowering g g' φ
  valid : g'.validate = .ok ()
  group : ∀ own limit, 1 ≤ Option.getD own limit →
    ({ RuleGroup.lowerAccesses with limit := own }.run ⟨.core, b⟩ limit).runOn g =
      (.ok (g.order.any (isLowered g)), g')
  group_again : ∀ own limit, 1 ≤ Option.getD own limit →
    ({ RuleGroup.lowerAccesses with limit := own }.run ⟨.core, b⟩ limit).runOn g' = (.ok false, g')
  pass : ∀ width limit, canonicalWidth g = .ok (some width) → 1 < width → 1 ≤ limit →
    ((Pass.lowerAccesses limit).run ⟨.core, b⟩).runOn g = (.ok true, g') ∧
      ((Pass.lowerAccesses limit).run ⟨.core, b⟩).runOn g' = (.ok false, g') ∧ ScalarCounts g g'

/-- Lowering is an isomorphism of graphs: a valid graph whose edges mirror the inputs, of which
every node has just been computed and none of whose parameters is a wide access, is carried over to
the one with the wide accesses in scalar form. -/
theorem exists_lowers {g₀ : Graph} {changed : Bool} (b : Bool)
    (inferred : (GraphM.inferAll .core).runOn g₀ = (.ok changed, g))
    (valid : g.validate = .ok ()) (mirrored : g.Mirrored)
    (undesignated : ∀ id ∈ g.parameters, (g.node? id).all fun node => scalarOp? node = none) :
    ∃ g' φ, Lowers b g g' φ := by
  have valid := Graph.validate_eq_ok_iff.1 valid
  have lowerable : Lowerable g := lowerable_of_inferAll inferred valid mirrored
    fun id node hnode hid => by simpa [hnode] using undesignated id hid
  obtain ⟨g', φ, done, run⟩ := lowerable.exists_lowering (b := b)
  have relabelled := done.relabelled_lowered valid
  refine ⟨g', φ, done.lowering valid, Graph.validate_eq_ok_iff.2 done.lowerable.valid, run, ?_, ?_⟩
  · intro own limit wide
    exact runOn_run_of_lowered (fun _ _ hnode => done.scalarOp?_eq_none valid hnode) wide
  · intro width limit canonical wide positive
    obtain ⟨allWide, id, node, hnode, access⟩ := wide_of_canonicalWidth valid canonical wide
    have changed : g.order.any (isLowered g) = true := by
      refine List.any_eq_true.2 ⟨id, valid.mem_order (Graph.contains_of_node? hnode), ?_⟩
      rw [isLowered_eq hnode]
      exact isSome_scalarOp? access (allWide id node hnode access)
    refine ⟨?_, runOn_lowerAccesses_of_none (canonicalWidth_of_relabelled relabelled allWide),
      scalarCounts_of_relabelled relabelled allWide⟩
    rw [runOn_lowerAccesses canonical wide, run (some limit) 0 positive, changed]

/-- The attributes of an access that moves four elements at once. -/
def fourWide : AttributeMap := AttributeMap.empty.insert widthKey (.int 4)

/-- A value that is loaded and stored again. -/
def copying : Graph :=
  (Graph.empty "f").after .core
    [.addParameter "x" ⟨.f32, .ofExtents [4]⟩,
      .makeNode { op := load, name := "l", attributes := fourWide, inputs := [⟨0, 0⟩] },
      .makeNode { op := store, name := "s", attributes := fourWide, inputs := [⟨1, 0⟩] },
      .addResult ⟨2, 0⟩]

theorem exists_lowers_copying :
    canonicalWidth ((GraphM.inferAll .core).runOn copying).2 = .ok (some 4) ∧
      ∃ g' φ, Lowers false ((GraphM.inferAll .core).runOn copying).2 g' φ := by
  have inferred : (GraphM.inferAll .core).runOn copying =
      (.ok false, ((GraphM.inferAll .core).runOn copying).2) := by decide +kernel
  exact ⟨by decide +kernel, exists_lowers false inferred (by decide +kernel) (by decide +kernel)
    (by decide +kernel)⟩

/-- A graph with a load among its parameters. -/
def designated : Graph :=
  (Graph.empty "f").after .core
    [.addParameter "x" ⟨.f32, .ofExtents [4]⟩, .addParameter "v" ⟨.f32, .ofExtents [4]⟩,
      .editNode 1 fun node => { node with op := load, attributes := fourWide, inputs := [⟨0, 0⟩] },
      .setInput 1 0 ⟨0, 0⟩]

/-- A wide access among the parameters is not among them any more once it is lowered. -/
theorem not_forall_exists_lowers :
    ¬∀ (g₀ g : Graph) (changed b : Bool), (GraphM.inferAll .core).runOn g₀ = (.ok changed, g) →
      g.validate = .ok () → g.Mirrored → ∃ g' φ, Lowers b g g' φ := by
  intro always
  obtain ⟨g', φ, lowers⟩ := always designated
    ((GraphM.inferAll .core).runOn designated).2 false false
    (by decide +kernel) (by decide +kernel) (by decide +kernel)
  have run := lowers.group none 1 (Nat.le_refl 1)
  have lost : (({ RuleGroup.lowerAccesses with limit := none }.run ⟨.core, false⟩ 1).runOn
      ((GraphM.inferAll .core).runOn designated).2).2.parameters = [0] := by decide +kernel
  have both : ((GraphM.inferAll .core).runOn designated).2.parameters = [0, 1] := by decide +kernel
  have carried := lowers.lowering.parameters
  rw [run] at lost
  rw [both, lost] at carried
  simp at carried

end TensorGraph.MemoryAccess

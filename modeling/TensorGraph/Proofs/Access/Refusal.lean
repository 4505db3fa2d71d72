import TensorGraph.Proofs.Access.Isomorphism
import TensorGraph.Proofs.RuleGroup.Fixpoint

/-!
# When the lowering refuses a graph

The lowering demands that all accesses have the same width. One that has none, or another one than
the first access, is at odds (`MemoryAccess.AtOdds`). The accesses are looked at in the order of
the graph, and the first one that is at odds is reported (`MemoryAccess.commonWidth_cases`). Nothing
has been lowered by then, and what may go wrong later is no violated precondition
(`MemoryAccess.checked_of_acyclic`).
-/

namespace TensorGraph

/-! ### Actions that have no precondition -/

/-- The action does not fail because a precondition is violated. -/
def GraphM.Unconditional {α : Type} (x : GraphM α) : Prop :=
  ∀ g fault, (x.runOn g).1 ≠ .error (.precondition fault)

namespace GraphM

variable {α β : Type} {x : GraphM α} {f : α → GraphM β} {registry : Registry} {id : NodeId}

theorem unconditional_pure (a : α) : (pure a : GraphM α).Unconditional := by
  intro g fault
  simp

theorem unconditional_modify (f : Graph → Graph) : (modify f : GraphM Unit).Unconditional := by
  intro g fault
  simp

theorem unconditional_ask {query : Graph → Except Error α}
    (h : ∀ g fault, query g ≠ .error (.precondition fault)) : (ask query).Unconditional := by
  intro g fault
  rw [runOn_ask]
  exact h g fault

theorem Unconditional.bind (hx : x.Unconditional) (hf : ∀ a, (f a).Unconditional) :
    (x >>= f).Unconditional := by
  intro g fault
  have own := hx g fault
  rw [runOn_bind]
  rcases answer : x.runOn g with ⟨e | a, g'⟩
  · simpa [answer] using own
  · exact hf a g' fault

theorem unconditional_forM {as : List α} {f : α → GraphM Unit} (h : ∀ a, (f a).Unconditional) :
    (as.forM f).Unconditional := by
  induction as with
  | nil => exact unconditional_pure _
  | cons a rest ih => exact (h a).bind fun _ => ih

theorem unconditional_node (id : NodeId) : (ask (·.node id)).Unconditional := by
  apply unconditional_ask
  intro g fault
  rw [Graph.node]
  split <;> simp

/-- What an operator complains of is reported as a fault of inference or of folding. -/
theorem slots_ne_precondition (operator : Operator) (s : Site) (fault : PreconditionFault) :
    operator.slots s ≠ .error (.precondition fault) := by
  simp only [Operator.slots]
  cases operator.types s with
  | error e => simp [bind, Except.bind]
  | ok types =>
    cases operator.fold s with
    | error e => simp [bind, Except.bind]
    | ok values =>
      simp only [mapError_ok, bind, Except.bind]
      split <;> simp [throw, throwThe, MonadExceptOf.throw, pure, Except.pure]

theorem unconditional_inferNode (registry : Registry) (id : NodeId) :
    (inferNode registry id).Unconditional := by
  refine (unconditional_node id).bind fun node => Unconditional.bind ?_ fun slots =>
    (unconditional_modify _).bind fun _ => unconditional_pure _
  apply unconditional_ask
  intro g fault
  rw [Graph.inferred]
  split
  · simp
  · exact slots_ne_precondition _ _ _

theorem unconditional_makeNode (registry : Registry) (node : Node) :
    (makeNode registry node).Unconditional := by
  have inserts : (addNode node).Unconditional := by
    intro g fault
    simp
  exact inserts.bind fun id => (unconditional_inferNode registry id).bind fun _ =>
    unconditional_pure id

theorem unconditional_setInput (id : NodeId) (port : Nat) (source : Output) :
    (setInput id port source).Unconditional := by
  intro g fault
  rw [runOn_setInput]
  split
  · simp
  · split <;> simp

theorem redirects_ne_precondition (g : Graph) (old new : NodeId) (outputs : Nat) (slots : List Nat)
    (fault : PreconditionFault) :
    redirects g old new outputs slots ≠ .error (.precondition fault) := by
  induction slots with
  | nil => simp [redirects]
  | cons slot rest ih =>
    rw [redirects]
    split
    · simp
    · cases h : redirects g old new outputs rest with
      | error e => simpa [bind, Except.bind, h] using ih
      | ok changes => simp [bind, Except.bind]

theorem unconditional_replaceNode (old new : NodeId) : (replaceNode old new).Unconditional :=
  (unconditional_node old).bind fun _ => (unconditional_node new).bind fun _ =>
    (unconditional_ask fun g fault => redirects_ne_precondition g _ _ _ _ fault).bind fun _ =>
      (unconditional_forM fun _ => unconditional_setInput _ _ _).bind fun _ =>
        (unconditional_modify _).bind fun _ =>
          (unconditional_node new).bind fun _ => unconditional_modify _

theorem unconditional_removeNode (id : NodeId) : (removeNode id).Unconditional := by
  intro g fault
  rw [runOn_removeNode]
  split <;> simp

end GraphM

namespace MemoryAccess

variable {g : Graph} {id : NodeId} {first node : Node} {nodes : List Node} {w expected : Int}
  {fault : PreconditionFault} {ctx : Context} {limit : Nat}

theorem unconditional_lower (op : String) (ctx : Context) (m : Match) :
    (lower op ctx m).Unconditional :=
  (GraphM.unconditional_node m.root).bind fun _ => (GraphM.unconditional_makeNode _ _).bind fun _ =>
    (GraphM.unconditional_replaceNode _ _).bind fun _ =>
      (GraphM.unconditional_removeNode _).bind fun _ => GraphM.unconditional_pure _

/-- The group that lowers accesses has no precondition. -/
theorem unconditional_lowerAccesses (own : Option Nat) (ctx : Context) (d : Nat) :
    ({ RuleGroup.lowerAccesses with limit := own }.run ctx d).Unconditional := by
  intro g fault failed
  rcases RuleGroup.error_cases failed with exhausted | ⟨rule, hrule, m, g₁, blame⟩
  · cases exhausted
  · rcases List.mem_cons.1 hrule with rfl | hrule
    · exact unconditional_lower scalarLoad ctx m g₁ fault blame
    · obtain rfl := List.mem_singleton.1 hrule
      exact unconditional_lower scalarStore ctx m g₁ fault blame

/-! ### Accesses at odds -/

/-- The width of an access, if it is an integer of at least 1. -/
def width? (node : Node) : Option Int := (node.attributes.int? widthKey).filter (1 ≤ ·)

/-- The node has no width, or another one than the first access. -/
def AtOdds (first node : Node) : Prop := width? node = none ∨ width? node ≠ width? first

/-- What there is to say of an access that is at odds with the first one. -/
inductive Complaint (first node : Node) : PreconditionFault → Prop where
  | missing : node.attributes.find? widthKey = none →
      Complaint first node (.widthMissing node.op node.name)
  | invalid (value : Attribute) : node.attributes.find? widthKey = some value →
      width? node = none → Complaint first node (.widthInvalid node.op node.name value)
  | differs (w expected : Int) : width? node = some w → width? first = some expected →
      w ≠ expected → Complaint first node (.widthsDiffer node.op node.name w first.name expected)

/-- The report names the node. -/
theorem Complaint.exists_message (h : Complaint first node fault) :
    ∃ rest, fault.message = node.op ++ " '" ++ node.name ++ "' has " ++ rest := by
  cases h with
  | missing =>
    refine ⟨"no vector_width attribute", ?_⟩
    have literal : "' has no vector_width attribute" = "' has " ++ "no vector_width attribute" := by
      decide
    have text : (PreconditionFault.widthMissing node.op node.name).message =
        node.op ++ " '" ++ node.name ++ "' has no vector_width attribute" := rfl
    rw [text, literal]
    simp only [String.append_assoc]
  | invalid value =>
    refine ⟨"invalid vector_width " ++ value.tagged, ?_⟩
    have literal : "' has invalid vector_width " = "' has " ++ "invalid vector_width " := by decide
    have text : (PreconditionFault.widthInvalid node.op node.name value).message =
        node.op ++ " '" ++ node.name ++ "' has invalid vector_width " ++ value.tagged := rfl
    rw [text, literal]
    simp only [String.append_assoc]
  | differs w expected =>
    refine ⟨"vector_width " ++ toString w ++ ", but '" ++ first.name ++ "' has " ++
      toString expected, ?_⟩
    have literal : "' has vector_width " = "' has " ++ "vector_width " := by decide
    have text : (PreconditionFault.widthsDiffer node.op node.name w first.name expected).message =
        node.op ++ " '" ++ node.name ++ "' has vector_width " ++ toString w ++ ", but '" ++
          first.name ++ "' has " ++ toString expected := rfl
    rw [text, literal]
    simp only [String.append_assoc]

theorem width_eq_ok_iff : width node = .ok w ↔ width? node = some w := by
  simp only [MemoryAccess.width, width?, AttributeMap.int?]
  cases node.attributes.find? widthKey with
  | none => simp
  | some value =>
    cases value with
    | int i => by_cases wide : 1 ≤ i.toInt <;> simp [wide, Option.filter]
    | _ => simp

/-- A width that is not valid is reported. -/
theorem complaint_of_width (h : width node = .error fault) :
    width? node = none ∧ ∀ first, Complaint first node fault := by
  have none : width? node = none := by
    rw [Option.eq_none_iff_forall_ne_some]
    intro w hw
    cases h.symm.trans (width_eq_ok_iff.2 hw)
  refine ⟨none, fun first => ?_⟩
  simp only [MemoryAccess.width] at h
  split at h
  · next i hi =>
    split at h
    · cases h
    · cases h
      exact .invalid _ hi none
  · next value _ hvalue =>
    cases h
    exact .invalid _ hvalue none
  · next hnone =>
    cases h
    exact .missing hnone

/-! ### The first access at odds -/

/-- The accesses of a graph, in its order. -/
def accesses (g : Graph) : List Node := (g.order.filterMap g.node?).filter isAccess

/-- Nodes that are no accesses do not count. -/
theorem commonWidth_filter (start : Option (Int × String)) (nodes : List Node) :
    commonWidth start (nodes.filter isAccess) = commonWidth start nodes := by
  induction nodes generalizing start with
  | nil => rfl
  | cons node rest ih =>
    by_cases access : isAccess node
    · rw [List.filter_cons_of_pos access, commonWidth, commonWidth]
      simp only [access, if_true, ih]
    · rw [List.filter_cons_of_neg access, commonWidth, if_neg access]
      exact ih start

section

variable {rest : List Node} {name : String} (access : isAccess node)

include access

theorem commonWidth_cons_of_error (own : width node = .error fault)
    (start : Option (Int × String)) : commonWidth start (node :: rest) = .error fault := by
  rw [commonWidth, if_pos access, own]
  rfl

theorem commonWidth_none_cons (own : width node = .ok w) :
    commonWidth none (node :: rest) = commonWidth (some (w, node.name)) rest := by
  rw [commonWidth, if_pos access, own]
  rfl

theorem commonWidth_some_cons (own : width node = .ok w) :
    commonWidth (some (expected, name)) (node :: rest) =
      if w = expected then commonWidth (some (expected, name)) rest
      else .error (.widthsDiffer node.op node.name w name expected) := by
  rw [commonWidth, if_pos access, own]
  rfl

end

/-- Either no access is at odds with the first one, or the first that is gets reported. -/
theorem commonWidth_cases (hfirst : width? first = some expected)
    (accesses : ∀ node ∈ nodes, isAccess node) :
    (∀ node ∈ nodes, ¬AtOdds first node) ∧
        commonWidth (some (expected, first.name)) nodes = .ok (some expected) ∨
      ∃ before node after fault, nodes = before ++ node :: after ∧
        (∀ earlier ∈ before, ¬AtOdds first earlier) ∧ AtOdds first node ∧
        Complaint first node fault ∧
        commonWidth (some (expected, first.name)) nodes = .error fault := by
  induction nodes with
  | nil => exact .inl ⟨by simp, rfl⟩
  | cons node rest ih =>
    obtain ⟨access, later⟩ := List.forall_mem_cons.1 accesses
    cases own : width node with
    | error fault =>
      obtain ⟨none, complaint⟩ := complaint_of_width own
      exact .inr ⟨[], node, rest, fault, rfl, by simp, .inl none, complaint first,
        commonWidth_cons_of_error access own _⟩
    | ok w =>
      rw [commonWidth_some_cons access own]
      rw [width_eq_ok_iff] at own
      by_cases agrees : w = expected
      · have even : ¬AtOdds first node := by simp [AtOdds, own, hfirst, agrees]
        rw [if_pos agrees]
        rcases ih later with ⟨none, common⟩ | ⟨before, found, after, fault, rfl, none, blamed⟩
        · exact .inl ⟨List.forall_mem_cons.2 ⟨even, none⟩, common⟩
        · exact .inr ⟨node :: before, found, after, fault, rfl,
            List.forall_mem_cons.2 ⟨even, none⟩, blamed⟩
      · have odd : AtOdds first node := by simp [AtOdds, own, hfirst, agrees]
        rw [if_neg agrees]
        exact .inr ⟨[], node, rest, _, rfl, by simp, odd, .differs w expected own hfirst agrees,
          rfl⟩

/-- The outcome of the check. -/
theorem canonicalWidth_cases (g : Graph) :
    accesses g = [] ∧ canonicalWidth g = .ok none ∨
    (∃ first w, (accesses g).head? = some first ∧ width? first = some w ∧
      (∀ node ∈ accesses g, ¬AtOdds first node) ∧ canonicalWidth g = .ok (some w)) ∨
    ∃ first before node after fault, (accesses g).head? = some first ∧
      accesses g = before ++ node :: after ∧ (∀ earlier ∈ before, ¬AtOdds first earlier) ∧
      AtOdds first node ∧ Complaint first node fault ∧
      canonicalWidth g = .error (.precondition fault) := by
  rw [canonicalWidth, ← commonWidth_filter, ← accesses]
  have access : ∀ node ∈ accesses g, isAccess node := fun node h => (List.mem_filter.1 h).2
  cases listed : accesses g with
  | nil => exact .inl ⟨rfl, rfl⟩
  | cons first rest =>
    rw [listed] at access
    obtain ⟨accessFirst, later⟩ := List.forall_mem_cons.1 access
    cases own : width first with
    | error fault =>
      obtain ⟨none, complaint⟩ := complaint_of_width own
      rw [commonWidth_cons_of_error accessFirst own]
      exact .inr (.inr ⟨first, [], first, rest, fault, rfl, rfl, by simp, .inl none,
        complaint first, rfl⟩)
    | ok w =>
      rw [commonWidth_none_cons accessFirst own]
      rw [width_eq_ok_iff] at own
      have even : ¬AtOdds first first := by simp [AtOdds, own]
      rcases commonWidth_cases own later with ⟨none, common⟩ |
        ⟨before, node, after, fault, rfl, none, odd, complaint, failed⟩
      · rw [common]
        exact .inr (.inl ⟨first, w, rfl, own, List.forall_mem_cons.2 ⟨even, none⟩, rfl⟩)
      · rw [failed]
        exact .inr (.inr ⟨first, first :: before, node, after, fault, rfl, rfl,
          List.forall_mem_cons.2 ⟨even, none⟩, odd, complaint, rfl⟩)

/-! ### The pass -/

/-- There is an access without a valid width, or there are two whose widths differ. -/
def Discordant (g : Graph) : Prop :=
  (∃ id node, g.node? id = some node ∧ isAccess node ∧ width? node = none) ∨
    ∃ id node id' node' w w', g.node? id = some node ∧ isAccess node ∧ width? node = some w ∧
      g.node? id' = some node' ∧ isAccess node' ∧ width? node' = some w' ∧ w ≠ w'

theorem mem_accesses (acyclic : g.isCyclic = false) :
    node ∈ accesses g ↔ ∃ id, g.node? id = some node ∧ isAccess node := by
  simp only [accesses, List.mem_filter, List.mem_filterMap]
  constructor
  · rintro ⟨⟨id, -, hnode⟩, access⟩
    exact ⟨id, hnode, access⟩
  · rintro ⟨id, hnode, access⟩
    have listed :=
      Graph.isCyclic_eq_false_iff_forall_mem.1 acyclic id (Graph.contains_of_node? hnode)
    exact ⟨⟨id, listed, hnode⟩, access⟩

theorem discordant_iff (acyclic : g.isCyclic = false) (hfirst : (accesses g).head? = some first) :
    Discordant g ↔ ∃ node ∈ accesses g, AtOdds first node := by
  constructor
  · rintro (⟨id, node, hnode, access, none⟩ |
      ⟨id, node, id', node', w, w', hnode, access, own, hnode', access', own', differ⟩)
    · exact ⟨node, (mem_accesses acyclic).2 ⟨id, hnode, access⟩, .inl none⟩
    · -- the first access cannot have both widths
      by_cases same : width? first = some w
      · exact ⟨node', (mem_accesses acyclic).2 ⟨id', hnode', access'⟩,
          .inr (by simp [own', same, differ.symm])⟩
      · exact ⟨node, (mem_accesses acyclic).2 ⟨id, hnode, access⟩,
          .inr (by simpa [own, eq_comm] using same)⟩
  · rintro ⟨node, hnode, odd⟩
    obtain ⟨id, hnode, access⟩ := (mem_accesses acyclic).1 hnode
    obtain ⟨id', hnode', access'⟩ := (mem_accesses acyclic).1 (List.mem_of_head? hfirst)
    cases own : width? node with
    | none => exact .inl ⟨id, node, hnode, access, own⟩
    | some w =>
      cases own' : width? first with
      | none => exact .inl ⟨id', first, hnode', access', own'⟩
      | some w' =>
        refine .inr ⟨id, node, id', first, w, w', hnode, access, own, hnode', access', own', ?_⟩
        simpa [AtOdds, own, own'] using odd

theorem runOn_lowerAccesses_of_error {e : Error} (h : canonicalWidth g = .error e) :
    ((Pass.lowerAccesses limit).run ctx).runOn g = (.error e, g) := by
  rw [Pass.lowerAccesses, GraphM.runOn_bind, GraphM.runOn_ask, h]

theorem runOn_lowerAccesses_of_one (h : canonicalWidth g = .ok (some 1)) :
    ((Pass.lowerAccesses limit).run ctx).runOn g = (.ok false, g) := by
  rw [Pass.lowerAccesses, GraphM.runOn_bind, GraphM.runOn_ask, h]
  rfl

/-- A graph that the check accepts is not refused by what follows. -/
theorem runOn_lowerAccesses_ne_precondition {common : Option Int}
    (h : canonicalWidth g = .ok common) (positive : ∀ w, common = some w → 1 ≤ w) :
    (((Pass.lowerAccesses limit).run ctx).runOn g).1 ≠ .error (.precondition fault) := by
  cases common with
  | none => simp [runOn_lowerAccesses_of_none h]
  | some w =>
    by_cases one : w = 1
    · subst one
      simp [runOn_lowerAccesses_of_one h]
    · have wide : 1 < w := lt_of_le_of_ne (positive w rfl) (Ne.symm one)
      rw [runOn_lowerAccesses h wide]
      exact unconditional_lowerAccesses (some limit) ctx 0 g fault

/-- How the check of a graph and the lowering that demands it come out. -/
structure Checked (ctx : Context) (limit : Nat) (g : Graph) : Prop where
  /-- The graph is refused if the widths of its accesses do not agree. -/
  refused_iff : (∃ fault, (((Pass.lowerAccesses limit).run ctx).runOn g).1 =
    .error (.precondition fault)) ↔ Discordant g
  /-- Then it is left as it is, and the first access in order that is at odds with the first of all
  is reported. -/
  reported : ∀ fault g', ((Pass.lowerAccesses limit).run ctx).runOn g =
      (.error (.precondition fault), g') →
    g' = g ∧ ∃ first before node after, (accesses g).head? = some first ∧
      accesses g = before ++ node :: after ∧ (∀ earlier ∈ before, ¬AtOdds first earlier) ∧
      AtOdds first node ∧ Complaint first node fault ∧
      ∃ rest, fault.message = node.op ++ " '" ++ node.name ++ "' has " ++ rest
  /-- Otherwise there is a common width as soon as there are accesses, and if it is 1 or missing
  nothing is done. -/
  accepted : ¬Discordant g → ∃ common, canonicalWidth g = .ok common ∧
    (common = none ↔ ∀ id node, g.node? id = some node → ¬isAccess node) ∧
    (∀ id node, g.node? id = some node → isAccess node → width? node = common) ∧
    (common = none ∨ common = some 1 →
      ((Pass.lowerAccesses limit).run ctx).runOn g = (.ok false, g))

/-- In a graph without cycles the lowering refuses to run exactly if the widths of the accesses do
not agree. -/
theorem checked_of_acyclic (acyclic : g.isCyclic = false) (ctx : Context) (limit : Nat) :
    Checked ctx limit g := by
  rcases canonicalWidth_cases g with ⟨listed, canonical⟩ |
    ⟨first, w, hfirst, own, even, canonical⟩ |
    ⟨first, before, node, after, fault, hfirst, listed, even, odd, complaint, canonical⟩
  · have absent (id node) (hnode : g.node? id = some node) : ¬isAccess node := fun access => by
      simpa [listed] using (mem_accesses acyclic).2 ⟨id, hnode, access⟩
    have concord : ¬Discordant g := by
      rintro (⟨id, node, hnode, access, -⟩ | ⟨id, node, _, _, _, _, hnode, access, -⟩) <;>
        exact absent id node hnode access
    have run : ((Pass.lowerAccesses limit).run ctx).runOn g = (.ok false, g) :=
      runOn_lowerAccesses_of_none canonical
    refine ⟨?_, ?_, fun _ => ⟨none, canonical, ?_, ?_, fun _ => run⟩⟩
    · simp [run, concord]
    · simp [run]
    · exact iff_of_true rfl absent
    · intro id node hnode access
      exact absurd access (absent id node hnode)
  · have concord : ¬Discordant g := by
      rw [discordant_iff acyclic hfirst]
      rintro ⟨node, hnode, odd⟩
      exact even node hnode odd
    have positive : 1 ≤ w := by
      simpa using (Option.filter_eq_some_iff.1 own).2
    have passes (fault : PreconditionFault) :
        (((Pass.lowerAccesses limit).run ctx).runOn g).1 ≠ .error (.precondition fault) :=
      runOn_lowerAccesses_ne_precondition canonical fun w' h => Option.some.inj h ▸ positive
    obtain ⟨id, hnode, access⟩ := (mem_accesses acyclic).1 (List.mem_of_head? hfirst)
    refine ⟨?_, ?_, fun _ => ⟨some w, canonical, ?_, ?_, ?_⟩⟩
    · exact iff_of_false (fun ⟨fault, failed⟩ => passes fault failed) concord
    · intro fault g' run
      exact absurd (congrArg Prod.fst run) (passes fault)
    · exact iff_of_false (by simp) fun absent => absent id first hnode access
    · intro id node hnode access
      have even := even node ((mem_accesses acyclic).2 ⟨id, hnode, access⟩)
      simp only [AtOdds, not_or, not_not] at even
      exact even.2.trans own
    · rintro (h | h)
      · cases h
      · rw [h] at canonical
        exact runOn_lowerAccesses_of_one canonical
  · have discord : Discordant g := by
      rw [discordant_iff acyclic hfirst]
      exact ⟨node, by simp [listed], odd⟩
    have run : ((Pass.lowerAccesses limit).run ctx).runOn g = (.error (.precondition fault), g) :=
      runOn_lowerAccesses_of_error canonical
    refine ⟨?_, ?_, fun concord => absurd discord concord⟩
    · exact iff_of_true ⟨fault, by rw [run]⟩ discord
    · intro fault' g' same
      rw [run] at same
      cases same
      exact ⟨rfl, first, before, node, after, hfirst, listed, even, odd, complaint,
        complaint.exists_message⟩

/-- A load that moves four elements at once and a store that moves two. -/
def mixedWidths : Graph :=
  (Graph.empty "f").after .core
    [.addParameter "x" ⟨.f32, .ofExtents [4]⟩,
      .makeNode { op := load, name := "l", attributes := fourWide, inputs := [⟨0, 0⟩] },
      .makeNode { op := store, name := "s", inputs := [⟨1, 0⟩]
                  attributes := AttributeMap.empty.insert widthKey (.int 2) }]

theorem checked_mixedWidths : mixedWidths.isCyclic = false ∧ Checked ⟨.core, false⟩ 64 mixedWidths ∧
    (mixedWidths.order.filterMap mixedWidths.node?).filterMap width? = [4, 2] := by
  have acyclic : mixedWidths.isCyclic = false := by decide +kernel
  exact ⟨acyclic, checked_of_acyclic acyclic ⟨.core, false⟩ 64, by decide +kernel⟩

end MemoryAccess

end TensorGraph

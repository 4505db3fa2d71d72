import TensorGraph.Graph.Edit
import TensorGraph.Pattern

/-!
# What a pattern means

A pattern is laid over a graph by walking both from a root, port by port and never past a wildcard.
The pattern fits if all that the walk meets is as the pattern says and if equal labels meet equal
nodes; the match then names what the walk has met (`Pattern.match?_spec`).

The matcher goes through the walk in one sweep and carries the labels met so far. Since every
pattern node is paired with one node only, what is left to show is a fact about sweeps over a list.
-/

namespace TensorGraph

namespace Pattern

variable {g : Graph} {p q : Pattern} {root id i : NodeId} {label : String}

/-- The patterns for what the node reads, if the pattern has any. -/
def inputs? : Pattern → Option (List Pattern)
  | free _ => none
  | reading _ inputs => some inputs

/-- The walk along the pattern `p` from the node `root` pairs the pattern `q` with the node `id`. -/
inductive Reaches (g : Graph) : Pattern → NodeId → Pattern → NodeId → Prop where
  /-- The walk starts at the root. -/
  | root {p : Pattern} {id : NodeId} : Reaches g p id p id
  /-- It goes on along a port, unless it is at a wildcard. -/
  | port {p p' q : Pattern} {id i : NodeId} {node : Node} {inputs : List Pattern} {port : Nat}
      {read : Output} (tame : p.head.kind ≠ .any) (at_node : g.node? id = some node)
      (below : p.inputs? = some inputs) (pattern : inputs[port]? = some p')
      (output : node.inputs[port]? = some read) (onward : Reaches g p' read.node q i) :
      Reaches g p id q i

/-- The node exists, is of one of the operator types, passes the test and has as many inputs as the
pattern has patterns for them. A wildcard asks for no more than that it exists. -/
def Describes (g : Graph) (p : Pattern) (id : NodeId) : Prop :=
  ∃ node, g.node? id = some node ∧ (p.head.kind ≠ .any →
    (∀ names, p.head.kind = .ops names → node.op ∈ names) ∧
    (∀ test, p.head.test? = some test → test g id = true) ∧
    ∀ inputs, p.inputs? = some inputs → node.inputs.length = inputs.length)

/-- Everything that the walk along the pattern meets is as the pattern says, and a label that is met
twice is met at the same node. -/
structure Fits (g : Graph) (p : Pattern) (root : NodeId) : Prop where
  /-- What is met is as the pattern says. -/
  describes : ∀ q id, Reaches g p root q id → Describes g q id
  /-- A label names one node. -/
  agree : ∀ q q' id id' label, Reaches g p root q id → Reaches g p root q' id' →
    q.label? = some label → q'.label? = some label → id = id'

/-! ### The walk as a list -/

mutual

/-- All that the walk along a pattern meets, a node before what it reads. -/
def walk (g : Graph) : Pattern → NodeId → List (Pattern × NodeId)
  | .free head, id => [(.free head, id)]
  | .reading head inputs, id =>
    (.reading head inputs, id) ::
      if head.kind = .any then [] else
        match g.node? id with
        | none => []
        | some node => walkAll g inputs (node.inputs.map Output.node)

/-- All that the walks along patterns laid over nodes meet, one walk after the other. -/
def walkAll (g : Graph) : List Pattern → List NodeId → List (Pattern × NodeId)
  | p :: ps, id :: ids => walk g p id ++ walkAll g ps ids
  | _, _ => []

end

theorem mem_walk_self (p : Pattern) (id : NodeId) : (p, id) ∈ walk g p id := by
  cases p <;> simp [walk]

theorem mem_walkAll {x : Pattern × NodeId} {ps : List Pattern} {ids : List NodeId} {port : Nat}
    (pattern : ps[port]? = some p) (node : ids[port]? = some id) (h : x ∈ walk g p id) :
    x ∈ walkAll g ps ids := by
  induction ps generalizing ids port with
  | nil => cases pattern
  | cons first ps ih =>
    cases ids with
    | nil => cases node
    | cons here ids =>
      rw [walkAll, List.mem_append]
      cases port with
      | zero =>
        obtain rfl := Option.some.inj pattern
        obtain rfl := Option.some.inj node
        exact .inl h
      | succ port => exact .inr (ih pattern node)

mutual

theorem reaches_of_mem_walk : ∀ {p : Pattern} {id : NodeId}, (q, i) ∈ walk g p id →
    Reaches g p id q i
  | .free head, id, h => by
    rw [walk, List.mem_singleton] at h
    obtain ⟨rfl, rfl⟩ := Prod.mk.inj h
    exact .root
  | .reading head inputs, id, h => by
    rw [walk, List.mem_cons] at h
    rcases h with h | h
    · obtain ⟨rfl, rfl⟩ := Prod.mk.inj h
      exact .root
    · split at h
      · cases h
      · next tame =>
        split at h
        · cases h
        · next node at_node =>
          obtain ⟨port, p', read, pattern, output, onward⟩ := reaches_of_mem_walkAll h
          exact .port tame at_node rfl pattern output onward

theorem reaches_of_mem_walkAll : ∀ {ps : List Pattern} {outputs : List Output},
    (q, i) ∈ walkAll g ps (outputs.map Output.node) →
    ∃ (port : Nat) (p' : Pattern) (read : Output), ps[port]? = some p' ∧
      outputs[port]? = some read ∧ Reaches g p' read.node q i
  | [], _, h => by simp [walkAll] at h
  | _ :: _, [], h => by simp [walkAll] at h
  | p :: ps, read :: outputs, h => by
    rw [List.map_cons, walkAll, List.mem_append] at h
    rcases h with h | h
    · exact ⟨0, p, read, rfl, rfl, reaches_of_mem_walk h⟩
    · obtain ⟨port, p', read', pattern, output, onward⟩ := reaches_of_mem_walkAll h
      exact ⟨port + 1, p', read', pattern, output, onward⟩

end

theorem mem_walk_of_reaches (h : Reaches g p root q i) : (q, i) ∈ walk g p root := by
  induction h with
  | root => exact mem_walk_self _ _
  | @port p p' q id i node inputs port read tame at_node below pattern output _ ih =>
    cases p with
    | free head => cases below
    | reading head inputs' =>
      obtain rfl : inputs' = inputs := Option.some.inj below
      have inner : head.kind ≠ .any := tame
      rw [walk, if_neg inner, at_node]
      refine List.mem_cons_of_mem _ (mem_walkAll pattern ?_ ih)
      rw [List.getElem?_map, output, Option.map_some]

theorem mem_walk_iff : (q, i) ∈ walk g p root ↔ Reaches g p root q i :=
  ⟨reaches_of_mem_walk, mem_walk_of_reaches⟩

/-! ### The labels of a sweep -/

theorem node?_cons (bindings : Bindings) (label' : String) (id : NodeId) (label : String) :
    Bindings.node? ((label', id) :: bindings) label =
      if label' = label then some id else bindings.node? label := by
  unfold Bindings.node?
  by_cases h : label' = label
  · simp [h]
  · simp [h]

theorem notMem_of_node?_eq_none {bindings : Bindings} (h : bindings.node? label = none) :
    label ∉ bindings.map Prod.fst := by
  intro mem
  obtain ⟨⟨label', i⟩, found, rfl⟩ := List.mem_map.1 mem
  have absent := List.find?_eq_none.1 (Option.map_eq_none_iff.1 h) _ found
  exact absent (decide_eq_true rfl)

/-- A label can be bound unless it names another node. -/
theorem exists_bindLabel_iff {head : Head} {bindings : Bindings} :
    (∃ bindings', head.bindLabel id bindings = some bindings') ↔
      ∀ label, head.label? = some label → ∀ i, bindings.node? label = some i → i = id := by
  unfold Head.bindLabel
  cases named : head.label? with
  | none => simp
  | some label =>
    cases bound : bindings.node? label with
    | none => simp [bound]
    | some i => simp [bound]

theorem node?_of_bindLabel {head : Head} {bindings bindings' : Bindings}
    (h : head.bindLabel id bindings = some bindings') :
    bindings'.node? label = some i ↔
      bindings.node? label = some i ∨ head.label? = some label ∧ i = id := by
  unfold Head.bindLabel at h
  cases named : head.label? with
  | none =>
    rw [named] at h
    obtain rfl := Option.some.inj h
    simp
  | some label' =>
    simp only [named] at h
    cases bound : bindings.node? label' with
    | none =>
      rw [bound] at h
      obtain rfl := Option.some.inj h
      rw [node?_cons]
      by_cases same : label' = label
      · subst same
        simp [bound, eq_comm]
      · simp [same]
    | some i' =>
      simp only [bound] at h
      split at h
      · next same =>
        obtain rfl := Option.some.inj h
        subst same
        constructor
        · exact .inl
        · rintro (h | ⟨h, rfl⟩)
          · exact h
          · obtain rfl := Option.some.inj h
            exact bound
      · cases h

theorem nodup_of_bindLabel {head : Head} {bindings bindings' : Bindings}
    (h : head.bindLabel id bindings = some bindings') (nodup : (bindings.map Prod.fst).Nodup) :
    (bindings'.map Prod.fst).Nodup := by
  unfold Head.bindLabel at h
  split at h
  · exact Option.some.inj h ▸ nodup
  · split at h
    · next bound =>
      obtain rfl := Option.some.inj h
      exact List.nodup_cons.2 ⟨notMem_of_node?_eq_none bound, nodup⟩
    · split at h
      · exact Option.some.inj h ▸ nodup
      · cases h

/-- Pairs of patterns and nodes are gone through, each as its pattern says, and their labels are
added to the bindings. -/
inductive Sweep (g : Graph) : List (Pattern × NodeId) → Bindings → Bindings → Prop where
  | nil {b : Bindings} : Sweep g [] b b
  | cons {q : Pattern} {id : NodeId} {rest : List (Pattern × NodeId)} {b b' b'' : Bindings}
      (described : Describes g q id) (label : q.head.bindLabel id b = some b')
      (later : Sweep g rest b' b'') : Sweep g ((q, id) :: rest) b b''

theorem sweep_nil_iff {b b' : Bindings} : Sweep g [] b b' ↔ b = b' := by
  constructor
  · intro h
    cases h
    rfl
  · rintro rfl
    exact .nil

theorem sweep_append_iff {l m : List (Pattern × NodeId)} {b b'' : Bindings} :
    Sweep g (l ++ m) b b'' ↔ ∃ b', Sweep g l b b' ∧ Sweep g m b' b'' := by
  induction l generalizing b with
  | nil =>
    constructor
    · exact fun h => ⟨b, .nil, h⟩
    · rintro ⟨b', h, later⟩
      cases h
      exact later
  | cons x l ih =>
    constructor
    · intro h
      cases h with
      | cons described label later =>
        obtain ⟨b', first, later⟩ := ih.1 later
        exact ⟨b', .cons described label first, later⟩
    · rintro ⟨b', h, later⟩
      cases h with
      | cons described label first => exact .cons described label (ih.2 ⟨b', first, later⟩)

/-- The label names the node in the bindings or at one of the pairs. -/
def Named (b : Bindings) (l : List (Pattern × NodeId)) (label : String) (i : NodeId) : Prop :=
  b.node? label = some i ∨ ∃ q, (q, i) ∈ l ∧ q.label? = some label

theorem named_cons_iff {l : List (Pattern × NodeId)} {b b' : Bindings}
    (h : q.head.bindLabel id b = some b') :
    Named b ((q, id) :: l) label i ↔ Named b' l label i := by
  unfold Named
  rw [node?_of_bindLabel h, or_assoc]
  refine or_congr_right ?_
  constructor
  · rintro ⟨q', hq', named⟩
    rcases List.mem_cons.1 hq' with here | later
    · obtain ⟨rfl, rfl⟩ := Prod.mk.inj here
      exact .inl ⟨named, rfl⟩
    · exact .inr ⟨q', later, named⟩
  · rintro (⟨named, rfl⟩ | ⟨q', later, named⟩)
    · exact ⟨q, List.mem_cons_self, named⟩
    · exact ⟨q', List.mem_cons_of_mem _ later, named⟩

/-- A sweep binds the labels that it meets and no others. -/
theorem node?_of_sweep {l : List (Pattern × NodeId)} {b b' : Bindings} (h : Sweep g l b b') :
    b'.node? label = some i ↔ Named b l label i := by
  induction h with
  | nil => simp [Named]
  | cons _ bound _ ih => rw [ih, named_cons_iff bound]

theorem nodup_of_sweep {l : List (Pattern × NodeId)} {b b' : Bindings} (h : Sweep g l b b')
    (nodup : (b.map Prod.fst).Nodup) : (b'.map Prod.fst).Nodup := by
  induction h with
  | nil => exact nodup
  | cons _ bound _ ih => exact ih (nodup_of_bindLabel bound nodup)

/-- A sweep can be made if each node is as its pattern says and no label names two nodes. -/
theorem exists_sweep_iff {l : List (Pattern × NodeId)} {b : Bindings} :
    (∃ b', Sweep g l b b') ↔
      (∀ x ∈ l, Describes g x.1 x.2) ∧
        ∀ label i j, Named b l label i → Named b l label j → i = j := by
  induction l generalizing b with
  | nil =>
    refine ⟨fun _ => ⟨by simp, ?_⟩, fun _ => ⟨b, .nil⟩⟩
    simp only [Named, List.not_mem_nil, false_and, exists_false, or_false]
    rintro label i j hi hj
    exact Option.some.inj (hi.symm.trans hj)
  | cons x l ih =>
    obtain ⟨q, id⟩ := x
    rw [List.forall_mem_cons]
    constructor
    · rintro ⟨b'', h⟩
      cases h with
      | cons described bound later =>
        obtain ⟨rest, agree⟩ := ih.1 ⟨b'', later⟩
        refine ⟨⟨described, rest⟩, ?_⟩
        simpa only [named_cons_iff bound] using agree
    · rintro ⟨⟨described, rest⟩, agree⟩
      have free : ∀ label, q.head.label? = some label → ∀ i, b.node? label = some i → i = id :=
        fun label named i bound =>
          agree label i id (.inl bound) (.inr ⟨q, List.mem_cons_self, named⟩)
      obtain ⟨b', bound⟩ := exists_bindLabel_iff.2 free
      simp only [named_cons_iff bound] at agree
      obtain ⟨b'', later⟩ := ih.2 ⟨rest, agree⟩
      exact ⟨b'', .cons described bound later⟩

/-! ### The matcher sweeps over the walk -/

theorem accepts_iff {head : Head} {node : Node} :
    head.accepts g id node = true ↔ (head.kind ≠ .any →
      (∀ names, head.kind = .ops names → node.op ∈ names) ∧
      ∀ test, head.test? = some test → test g id = true) := by
  unfold Head.accepts
  cases head.kind with
  | any => simp
  | ops names => cases head.test? <;> simp
  | tested => cases head.test? <;> simp

mutual

theorem bind_eq_some_iff : ∀ {p : Pattern} {id : NodeId} {b b' : Bindings},
    bind g p id b = some b' ↔ Sweep g (walk g p id) b b'
  | .free head, id, b, b' => by
    simp only [bind, Option.bind_eq_bind, Option.bind_eq_some_iff, Option.ite_none_right_eq_some,
      accepts_iff]
    constructor
    · rintro ⟨node, at_node, b', bound, accepted, ⟨⟩⟩
      refine .cons ⟨node, at_node, fun tame => ?_⟩ bound .nil
      exact ⟨(accepted tame).1, (accepted tame).2, fun _ h => nomatch h⟩
    · intro h
      cases h with
      | cons described bound later =>
        obtain ⟨node, at_node, holds⟩ := described
        cases later
        exact ⟨node, at_node, b', bound, fun tame => ⟨(holds tame).1, (holds tame).2.1⟩, rfl⟩
  | .reading head inputs, id, b, b' => by
    simp only [bind, Option.bind_eq_bind, Option.bind_eq_some_iff, Option.ite_none_right_eq_some,
      accepts_iff]
    by_cases wild : head.kind = .any
    · rw [walk, if_pos wild]
      simp only [if_pos wild, Option.some.injEq]
      constructor
      · rintro ⟨node, at_node, b', bound, -, rfl⟩
        exact .cons ⟨node, at_node, fun tame => absurd wild tame⟩ bound .nil
      · intro h
        cases h with
        | cons described bound later =>
          obtain ⟨node, at_node, -⟩ := described
          cases later
          exact ⟨node, at_node, b', bound, fun tame => absurd wild tame, rfl⟩
    · rw [walk, if_neg wild]
      simp only [if_neg wild, Option.ite_none_right_eq_some, bindAll_eq_some_iff]
      constructor
      · rintro ⟨node, at_node, c, bound, accepted, arity, later⟩
        obtain ⟨listed, passed⟩ := accepted wild
        refine .cons ⟨node, at_node, fun _ => ⟨listed, passed, ?_⟩⟩ bound ?_
        · rintro _ ⟨⟩
          exact arity.symm
        · rw [at_node]
          exact later
      · intro h
        cases h with
        | cons described bound later =>
          obtain ⟨node, at_node, holds⟩ := described
          obtain ⟨listed, passed, arity⟩ := holds wild
          rw [at_node] at later
          exact ⟨node, at_node, _, bound, fun _ => ⟨listed, passed⟩, (arity _ rfl).symm, later⟩

theorem bindAll_eq_some_iff : ∀ {ps : List Pattern} {ids : List NodeId} {b b' : Bindings},
    bindAll g ps ids b = some b' ↔ Sweep g (walkAll g ps ids) b b'
  | p :: ps, id :: ids, b, b' => by
    simp only [walkAll, sweep_append_iff, bindAll, Option.bind_eq_bind, Option.bind_eq_some_iff,
      bind_eq_some_iff, bindAll_eq_some_iff]
  | [], _, b, b' => by
    rw [bindAll, walkAll, sweep_nil_iff, Option.some.injEq]
    · exact nofun
    · exact nofun
  | _ :: _, [], b, b' => by
    rw [bindAll, walkAll, sweep_nil_iff, Option.some.injEq]
    · exact nofun
    · exact nofun

end

theorem match?_eq_some_iff {m : Match} :
    p.match? g root = some m ↔ m.root = root ∧ Sweep g (walk g p root) [] m.bindings := by
  obtain ⟨root', bindings⟩ := m
  rw [match?, Option.map_eq_some_iff, ← bind_eq_some_iff]
  constructor
  · rintro ⟨bindings, bound, ⟨⟩⟩
    exact ⟨rfl, bound⟩
  · rintro ⟨rfl, bound⟩
    exact ⟨bindings, bound, rfl⟩

theorem named_walk_iff :
    Named [] (walk g p root) label id ↔ ∃ q, Reaches g p root q id ∧ q.label? = some label := by
  simp [Named, Bindings.node?, mem_walk_iff]

theorem exists_sweep_walk_iff : (∃ b, Sweep g (walk g p root) [] b) ↔ Fits g p root := by
  rw [exists_sweep_iff]
  simp only [named_walk_iff]
  constructor
  · rintro ⟨describes, agree⟩
    refine ⟨fun q id h => describes (q, id) (mem_walk_iff.2 h), ?_⟩
    exact fun q q' i j label h h' l l' => agree label i j ⟨q, h, l⟩ ⟨q', h', l'⟩
  · rintro ⟨describes, agree⟩
    refine ⟨fun x h => describes x.1 x.2 (mem_walk_iff.1 h), ?_⟩
    rintro label i j ⟨q, h, l⟩ ⟨q', h', l'⟩
    exact agree q q' i j label h h' l l'

/-- A pattern fits at a node exactly if all that the walk along it meets is as the pattern says and
equal labels meet equal nodes. The match then names what the walk has met, each label once. -/
theorem match?_spec (p : Pattern) (g : Graph) (root : NodeId) :
    ((∃ m, p.match? g root = some m) ↔ Fits g p root) ∧
      ∀ m, p.match? g root = some m → m.root = root ∧ (m.bindings.map Prod.fst).Nodup ∧
        ∀ label id, m.node? label = some id ↔
          ∃ q, Reaches g p root q id ∧ q.label? = some label := by
  constructor
  · rw [← exists_sweep_walk_iff]
    constructor
    · rintro ⟨m, h⟩
      exact ⟨m.bindings, (match?_eq_some_iff.1 h).2⟩
    · rintro ⟨bindings, h⟩
      exact ⟨⟨root, bindings⟩, match?_eq_some_iff.2 ⟨rfl, h⟩⟩
  · intro m h
    obtain ⟨at_root, swept⟩ := match?_eq_some_iff.1 h
    refine ⟨at_root, nodup_of_sweep swept List.nodup_nil, fun label id => ?_⟩
    rw [Match.node?, node?_of_sweep swept, named_walk_iff]

/-! ### A wildcard over patterns for inputs -/

/-- A node that reads two others. -/
def pair : Graph :=
  (((Graph.empty "f").insert { op := "Parameter" }).insert { op := "A", inputs := [⟨0, 0⟩] }).insert
    { op := "B", inputs := [⟨1, 0⟩, ⟨0, 0⟩] }

/-- A wildcard fits although it comes with patterns for fewer inputs than the node has: these are
not looked at. -/
theorem not_forall_fits_and_arity :
    ¬∀ (p : Pattern) (g : Graph) (root : NodeId), (∃ m, p.match? g root = some m) ↔
      Fits g p root ∧ ∀ q id node inputs, Reaches g p root q id → g.node? id = some node →
        q.inputs? = some inputs → node.inputs.length = inputs.length := by
  intro always
  have found : ∃ m, (any.withInputs [op "Nothing"]).match? pair 2 = some m := ⟨⟨2, []⟩, rfl⟩
  obtain ⟨-, arity⟩ := (always _ _ _).1 found
  exact absurd (arity _ 2 _ _ .root rfl rfl) (by decide)

end Pattern

end TensorGraph

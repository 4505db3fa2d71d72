import TensorGraph.Proofs.Operators.Success

/-!
# Operators that are steady

An operator is steady if a node that already has the outputs that it computes gets the same outputs
again. Only the operator of parameters looks at the outputs that its node has: it keeps their types.
-/

namespace TensorGraph

namespace Operator

/-- Computing the outputs of a node a second time gives the same outputs. -/
def Steady (operator : Operator) : Prop :=
  ∀ node slots outputs, operator.slots ⟨node, slots⟩ = .ok outputs →
    operator.slots ⟨{ node with outputs }, slots⟩ = .ok outputs

/-- What is computed does not depend on the outputs that the node has. -/
def Blind (operator : Operator) : Prop :=
  ∀ node slots outputs,
    operator.slots ⟨{ node with outputs }, slots⟩ = operator.slots ⟨node, slots⟩

theorem blind_of_types_of_fold {operator : Operator}
    (types : ∀ node slots outputs,
      operator.types ⟨{ node with outputs }, slots⟩ = operator.types ⟨node, slots⟩)
    (fold : ∀ node slots outputs,
      operator.fold ⟨{ node with outputs }, slots⟩ = operator.fold ⟨node, slots⟩) :
    operator.Blind := by
  intro node slots outputs
  simp only [Operator.slots]
  rw [types, fold]

/-- An operator that does not look at the outputs of its node is steady. -/
theorem Blind.steady {operator : Operator} (blind : operator.Blind) : operator.Steady :=
  fun node slots outputs h => (blind node slots outputs).trans h

/-- The outputs of a parameter are those that it declares, without values. -/
theorem slots_parameter (node : Node) (slots : List (Except Error Slot)) :
    parameter.slots ⟨node, slots⟩ =
      if node.inputs = [] then
        if node.outputs = [] then
          .error (.untyped node.name node.op (.inference (.parameterUntyped node.name)))
        else .ok (node.outputs.map fun slot => .ofType slot.toSlotType)
      else
        .error (.untyped node.name node.op (.inference (.arity node.op 0 node.inputs.length))) := by
  have untouched :
      ((node.outputs.map Slot.toSlotType).mapIdx fun _ type => { toSlotType := type }) =
        node.outputs.map fun slot => Slot.ofType slot.toSlotType :=
    List.ext_getElem? fun i => by
      rw [List.getElem?_mapIdx, List.getElem?_map, List.getElem?_map, Option.map_map]
      rfl
  by_cases none : node.inputs = []
  · by_cases typed : node.outputs = []
    · simp [Operator.slots, parameter, Site.expectInputs, Site.inputCount, none, typed, bind,
        Except.bind, throw, throwThe, MonadExceptOf.throw]
    · simp [Operator.slots, parameter, Site.expectInputs, Site.inputCount, none, typed, bind,
        Except.bind, pure, Except.pure, untouched]
  · simp [Operator.slots, parameter, Site.expectInputs, Site.inputCount, none, bind, Except.bind]

theorem steady_parameter : parameter.Steady := by
  intro node slots outputs h
  rw [slots_parameter] at h ⊢
  by_cases none : node.inputs = []
  · by_cases typed : node.outputs = []
    · simp [none, typed] at h
    · simp only [none, typed, if_true, if_false, Except.ok.injEq] at h
      subst h
      simp [none, typed, Slot.ofType]
  · simp [none] at h

theorem joinShapes_blind (node : Node) (slots : List (Except Error Slot)) (outputs : List Slot)
    (element : ElementType) (axis : Nat) (inputs : List Nat) (dims : List Dim) :
    Concat.joinShapes ⟨{ node with outputs }, slots⟩ element axis inputs dims =
      Concat.joinShapes ⟨node, slots⟩ element axis inputs dims := by
  induction inputs generalizing dims with
  | nil => rfl
  | cons input rest ih =>
    simp only [Concat.joinShapes, ih]
    rfl

theorem knownLists_blind (node : Node) (slots : List (Except Error Slot)) (outputs : List Slot)
    (inputs : List Nat) :
    Concat.knownLists ⟨{ node with outputs }, slots⟩ inputs =
      Concat.knownLists ⟨node, slots⟩ inputs := by
  induction inputs with
  | nil => rfl
  | cons input rest ih =>
    rw [Concat.knownLists, Concat.knownLists, ih]
    rfl

theorem blind_concat : concat.Blind := by
  refine blind_of_types_of_fold (fun node slots outputs => ?_) (fun node slots outputs => ?_)
  · simp only [concat, joinShapes_blind]
    rfl
  · simp only [concat, knownLists_blind]
    rfl

theorem blind_of_mem_core {operator : Operator} (h : operator ∈ core) :
    operator = parameter ∨ operator.Blind := by
  cases family_of_mem_core h with
  | parameter => exact .inl rfl
  | concat => exact .inr blind_concat
  | result | constant | binary | unary | reshape | shapeOf | gather | convert | memoryAccess =>
    exact .inr (blind_of_types_of_fold (fun _ _ _ => rfl) (fun _ _ _ => rfl))

theorem steady_of_mem_core {operator : Operator} (h : operator ∈ core) : operator.Steady := by
  rcases blind_of_mem_core h with rfl | blind
  · exact steady_parameter
  · exact blind.steady

end Operator

namespace Registry

variable {r : Registry} {op : String} {operator : Operator} {operators : List Operator}

theorem find?_insertAll (h : (r.insertAll operators).find? op = some operator) :
    r.find? op = some operator ∨ operator ∈ operators ∧ operator.name = op := by
  induction operators generalizing r with
  | nil => exact .inl h
  | cons first rest ih =>
    rcases ih h with h | ⟨hmem, hname⟩
    · rw [find?_insert] at h
      split at h
      · next e =>
        obtain rfl := Option.some.inj h
        exact .inr ⟨List.mem_cons_self, e.symm⟩
      · exact .inl h
    · exact .inr ⟨List.mem_cons_of_mem _ hmem, hname⟩

/-- The registry of the core operators knows each under its own name. -/
theorem mem_core_of_find? (h : core.find? op = some operator) :
    operator ∈ Operator.core ∧ operator.name = op := by
  rcases find?_insertAll h with h | h
  · cases h
  · exact h

/-- Every operator is steady. -/
def Steady (r : Registry) : Prop := ∀ op operator, r.find? op = some operator → operator.Steady

theorem steady_core : core.Steady := fun _ _ h =>
  Operator.steady_of_mem_core (mem_core_of_find? h).1

end Registry

end TensorGraph

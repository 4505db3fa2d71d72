import TensorGraph.Graph.Basic

/-!
# Operators

An operator says what its nodes produce: the types of the outputs and, as far as they are known
before the graph runs, their values. It sees its node and the slots that the node reads, nothing
else of the graph; this is its `Site`.
-/

namespace TensorGraph

/-- What an operator sees of a graph: a node and, by port, the slots that the node reads. -/
structure Site where
  /-- The node. -/
  node : Node
  /-- The slots it reads, or why there is no such slot. -/
  slots : List (Except Error Slot)

/-- The site of a node in a graph. -/
def Graph.site (g : Graph) (node : Node) : Site := ⟨node, node.inputs.map g.slot⟩

namespace Site

/-- The number of inputs. -/
def inputCount (s : Site) : Nat := s.node.inputs.length

/-- Fails unless the node has the expected number of inputs. -/
def expectInputs (s : Site) (expected : Nat) : Except Error Unit :=
  if s.inputCount = expected then .ok ()
  else .error (.inference (.arity s.node.op expected s.inputCount))

/-- The slot that an input reads. -/
def slot (s : Site) (i : Nat) : Except Error Slot :=
  match s.slots[i]? with
  | some slot => slot
  | none => .error (.inference (.inputOutOfRange i s.inputCount))

/-- The element type of an input. -/
def element (s : Site) (i : Nat) : Except Error ElementType := return (← s.slot i).element

/-- The shape of an input. -/
def shape (s : Site) (i : Nat) : Except Error Shape := return (← s.slot i).shape

/-- The value of an input, if it is known. -/
def value (s : Site) (i : Nat) : Except Error (Option Tensor) := return (← s.slot i).value

/-- The value of an attribute. -/
def attribute? (s : Site) (key : String) : Option Attribute := s.node.attributes.find? key

/-- The value of an integer attribute. -/
def int (s : Site) (key : String) : Except Error Int :=
  match s.attribute? key with
  | some (.int i) => .ok i.toInt
  | _ => .error (.attr (.integerMissing s.node.op key))

/-- The value of an integer attribute that may be missing. -/
def intOr (s : Site) (key : String) (default : Int) : Except Error Int :=
  match s.attribute? key with
  | none => .ok default
  | some (.int i) => .ok i.toInt
  | some other => .error (.attr (.notInteger s.node.op key other))

/-- The truth value of an attribute that may be missing. -/
def boolOr (s : Site) (key : String) (default : Bool) : Except Error Bool :=
  match s.attribute? key with
  | none => .ok default
  | some (.bool b) => .ok b
  | some other => .error (.attr (.notBool s.node.op key other))

/-- The value of a text attribute. -/
def text (s : Site) (key : String) : Except Error String :=
  match s.attribute? key with
  | some (.text t) => .ok t
  | _ => .error (.attr (.textMissing s.node.op key))

end Site

/-- What the nodes of one type produce. -/
structure Operator where
  /-- The name of the operator. -/
  name : String
  /-- The types of the outputs. -/
  types : Site → Except Error (List SlotType)
  /-- The values of the outputs as far as they are known; no entries at all if the operator is
  never evaluated. -/
  fold : Site → Except Error (List (Option Tensor)) := fun _ => .ok []

/-- The operators by the type of their nodes. -/
structure Registry where
  /-- Operator types, each once, and operators. -/
  entries : List (String × Operator) := []

namespace Registry

/-- No operators. -/
def empty : Registry := {}

/-- The operator of a type. -/
def find? (r : Registry) (op : String) : Option Operator :=
  (r.entries.find? (·.1 = op)).map Prod.snd

/-- Is there an operator of that type? -/
def contains (r : Registry) (op : String) : Bool := (r.find? op).isSome

/-- The registry with the operator of a type set. -/
def insert (r : Registry) (op : String) (operator : Operator) : Registry :=
  ⟨r.entries.filter (·.1 ≠ op) ++ [(op, operator)]⟩

theorem find?_insert (r : Registry) (op name : String) (operator : Operator) :
    (r.insert op operator).find? name = if name = op then some operator else r.find? name := by
  simp only [find?, insert, List.find?_append]
  split
  · next e =>
    have gone : (r.entries.filter (·.1 ≠ op)).find? (·.1 = name) = none := by
      rw [List.find?_eq_none]
      intro entry h
      simpa [e] using (List.mem_filter.1 h).2
    rw [gone]
    simp [e]
  · next e =>
    have kept :
        (r.entries.filter (·.1 ≠ op)).find? (·.1 = name) = r.entries.find? (·.1 = name) := by
      rw [List.find?_filter]
      congr 1
      funext entry
      by_cases h : entry.1 = name <;> simp [h, e]
    rw [kept]
    simp [Ne.symm e]

/-- The registry with operators under their own names. -/
def insertAll (r : Registry) (operators : List Operator) : Registry :=
  operators.foldl (fun r operator => r.insert operator.name operator) r

/-- The number of operators. -/
def size (r : Registry) : Nat := r.entries.length

/-- The operator types. -/
def names (r : Registry) : List String := r.entries.map Prod.fst

end Registry

end TensorGraph

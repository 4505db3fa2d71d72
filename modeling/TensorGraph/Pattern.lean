import TensorGraph.Graph.Order
import TensorGraph.Text.Quoted

/-!
# Patterns

A pattern describes a node by its operator or by a test, and the nodes it reads by further
patterns, port by port. Labels name the nodes that are met; a label that occurs twice has to meet
the same node both times. There is one way at most to lay a pattern over a graph, so that matching
never has to try again.
-/

namespace TensorGraph

/-- A test of a node in its graph. -/
abbrev NodeTest := Graph → NodeId → Bool

namespace Pattern

/-- Which nodes a pattern is for. -/
inductive Kind where
  /-- Nodes of one of the operator types. -/
  | ops (names : List String)
  /-- Any node, with anything above it. -/
  | any
  /-- Nodes that pass the test of the pattern. -/
  | tested
deriving DecidableEq, Repr

/-- What a pattern says of the node itself. -/
structure Head where
  /-- Which nodes it is for. -/
  kind : Kind
  /-- A further test, which does not count for the kind `any`. -/
  test? : Option NodeTest := none
  /-- The name of the node. -/
  label? : Option String := none

end Pattern

/-- A template for a node and the nodes above it. -/
inductive Pattern where
  /-- A node that may read anything. -/
  | free (head : Pattern.Head)
  /-- A node that reads nodes like these, port by port. -/
  | reading (head : Pattern.Head) (inputs : List Pattern)

/-- Labels and the nodes they name, each label once. -/
abbrev Bindings := List (String × NodeId)

/-- The node that a label names. -/
def Bindings.node? (bindings : Bindings) (label : String) : Option NodeId :=
  (bindings.find? (·.1 = label)).map Prod.snd

namespace Pattern

/-- A pattern for nodes of an operator type. -/
def op (op : String) : Pattern := .free { kind := .ops [op] }

/-- A pattern for any node. -/
def any : Pattern := .free { kind := .any }

/-- What a pattern says of the node itself. -/
def head : Pattern → Head
  | free head | reading head _ => head

/-- The pattern with another head. -/
def withHead (f : Head → Head) : Pattern → Pattern
  | free head => free (f head)
  | reading head inputs => reading (f head) inputs

/-- The pattern with a further test. -/
def satisfying (test : NodeTest) (p : Pattern) : Pattern :=
  p.withHead fun head => { head with test? := some test }

/-- The pattern with a name for its node. -/
def named (label : String) (p : Pattern) : Pattern :=
  p.withHead fun head => { head with label? := some label }

/-- The pattern with patterns for what its node reads. -/
def withInputs (inputs : List Pattern) (p : Pattern) : Pattern := reading p.head inputs

/-- The name of the pattern's node. -/
def label? (p : Pattern) : Option String := p.head.label?

/-- The bindings with the label of the head, unless it names another node already. -/
def Head.bindLabel (head : Head) (id : NodeId) (bindings : Bindings) : Option Bindings :=
  match head.label? with
  | none => some bindings
  | some label =>
    match bindings.node? label with
    | none => some ((label, id) :: bindings)
    | some bound => if bound = id then some bindings else none

/-- Is the node one of the operator types and does it pass the test? -/
def Head.accepts (head : Head) (g : Graph) (id : NodeId) (node : Node) : Bool :=
  let passes := head.test?.all fun test => test g id
  match head.kind with
  | .any => true
  | .ops names => names.contains node.op && passes
  | .tested => passes

mutual

/-- The bindings with those of the pattern laid over the node, if it fits. Below a node of the kind
`any` nothing is looked at. -/
def bind (g : Graph) : Pattern → NodeId → Bindings → Option Bindings
  | .free head, id, bindings => do
    let node ← g.node? id
    let bindings ← head.bindLabel id bindings
    if head.accepts g id node then some bindings else none
  | .reading head inputs, id, bindings => do
    let node ← g.node? id
    let bindings ← head.bindLabel id bindings
    if head.accepts g id node then
      if head.kind = .any then some bindings
      else if inputs.length = node.inputs.length then
        bindAll g inputs (node.inputs.map Output.node) bindings
      else none
    else none

/-- The bindings with those of the patterns laid over the nodes, one by one. -/
def bindAll (g : Graph) : List Pattern → List NodeId → Bindings → Option Bindings
  | p :: ps, id :: ids, bindings => do bindAll g ps ids (← bind g p id bindings)
  | _, _, bindings => some bindings

end

end Pattern

/-- A place in a graph where a pattern fits. -/
structure Match where
  /-- The node over which the pattern lies. -/
  root : NodeId
  /-- The nodes by label. -/
  bindings : Bindings

namespace Match

/-- The node that a label names. -/
def node? (m : Match) (label : String) : Option NodeId := m.bindings.node? label

end Match

namespace Pattern

/-- The match of the pattern at a node. -/
def match? (p : Pattern) (g : Graph) (root : NodeId) : Option Match :=
  (p.bind g root []).map fun bindings => { root, bindings }

/-- Every match of the pattern, in the order of the graph. -/
def findAll (p : Pattern) (g : Graph) : List Match :=
  g.order.filterMap fun id => p.match? g id

/-- The operator types, or a sign for the other kinds. -/
def Kind.text : Kind → String
  | .ops names => "|".intercalate names
  | .any => "*"
  | .tested => "?"

/-- The head of the pattern, without the closing brace. -/
def Head.text (head : Head) : String :=
  let label := match head.label? with
    | some label => "Some(" ++ Text.quoted label ++ ")"
    | none => "None"
  let tested := if head.test?.isSome then "true" else "false"
  "Pattern \x7b kind: " ++ Text.quoted head.kind.text ++ ", label: " ++ label ++
    ", has_predicate: " ++ tested ++ ", inputs: "

mutual

/-- The pattern as a text. -/
def text : Pattern → String
  | .free head => head.text ++ "None \x7d"
  | .reading head inputs => head.text ++ "Some(" ++ Text.bracketed (texts inputs) ++ ") \x7d"

/-- The patterns as texts. -/
def texts : List Pattern → List String
  | [] => []
  | p :: ps => text p :: texts ps

end

end Pattern

end TensorGraph

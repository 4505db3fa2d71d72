import TensorGraph.Graph.Basic

/-!
# Actions on a graph

An action changes a graph and gives an answer or fails. What it has changed before it fails stays
changed. `GraphM.runOn` carries an action out; its lemmas follow an action step by step.
-/

namespace TensorGraph

/-- An action on a graph. -/
abbrev GraphM := ExceptT Error (StateM Graph)

namespace GraphM

variable {α β : Type}

/-- Carries out an action: its answer, or why it failed, and the graph that it leaves. -/
def runOn (action : GraphM α) (g : Graph) : Except Error α × Graph := (ExceptT.run action).run g

/-- The action that a function on graphs describes. -/
def ofFn (f : Graph → Except Error α × Graph) : GraphM α := ExceptT.mk (StateT.mk f)

/-- An answer that changes nothing. -/
def ask (query : Graph → Except Error α) : GraphM α := ofFn fun g => (query g, g)

@[simp] theorem runOn_pure (a : α) (g : Graph) : (pure a : GraphM α).runOn g = (.ok a, g) := rfl

@[simp] theorem runOn_throw (e : Error) (g : Graph) :
    (throw e : GraphM α).runOn g = (.error e, g) := rfl

@[simp] theorem runOn_get (g : Graph) : (get : GraphM Graph).runOn g = (.ok g, g) := rfl

@[simp] theorem runOn_set (g g' : Graph) : (set g' : GraphM Unit).runOn g = (.ok (), g') := rfl

@[simp] theorem runOn_modify (f : Graph → Graph) (g : Graph) :
    (modify f : GraphM Unit).runOn g = (.ok (), f g) := rfl

@[simp] theorem runOn_ofFn (f : Graph → Except Error α × Graph) (g : Graph) :
    (ofFn f).runOn g = f g := rfl

@[simp] theorem runOn_ask (query : Graph → Except Error α) (g : Graph) :
    (ask query).runOn g = (query g, g) := rfl

/-- The second action starts with the graph that the first one leaves, unless that one fails. -/
theorem runOn_bind (x : GraphM α) (f : α → GraphM β) (g : Graph) :
    (x >>= f).runOn g =
      match x.runOn g with
      | (.ok a, g') => (f a).runOn g'
      | (.error e, g') => (.error e, g') := by
  have steps : (x >>= f).runOn g = (ExceptT.bindCont f (x.runOn g).1).run (x.runOn g).2 := rfl
  rw [steps]
  rcases x.runOn g with ⟨_ | a, g'⟩ <;> rfl

end GraphM

end TensorGraph

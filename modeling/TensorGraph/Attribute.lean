import TensorGraph.Decimal.Layout
import TensorGraph.Text.Quoted

/-!
# Attributes

An attribute is a named constant of a node. `AttributeMap` keeps the attributes of a node in the
order of their names.
-/

namespace TensorGraph

/-- The value of an attribute. -/
inductive Attribute where
  | float (x : Binary32)
  | int (i : Int64)
  | bool (b : Bool)
  | text (s : String)
  | floats (xs : List Binary32)
  | ints (is : List Int64)
  | texts (ss : List String)
deriving DecidableEq, Repr

namespace Attribute

/-- The value for a reader: a single text is not escaped, texts in a list are. -/
def plain : Attribute → String
  | float x => x.text .plain
  | int i => toString i.toInt
  | bool b => toString b
  | text s => "\"" ++ s ++ "\""
  | floats xs => Text.bracketed (xs.map (Binary.text .marked))
  | ints is => Text.bracketed (is.map fun i => toString i.toInt)
  | texts ss => Text.bracketed (ss.map Text.quoted)

/-- The value with its kind, every text escaped. -/
def tagged : Attribute → String
  | float x => "Float(" ++ x.text .marked ++ ")"
  | int i => "Int(" ++ toString i.toInt ++ ")"
  | bool b => "Bool(" ++ toString b ++ ")"
  | text s => "String(" ++ Text.quoted s ++ ")"
  | floats xs => "Floats(" ++ Text.bracketed (xs.map (Binary.text .marked)) ++ ")"
  | ints is => "Ints(" ++ Text.bracketed (is.map fun i => toString i.toInt) ++ ")"
  | texts ss => "Strings(" ++ Text.bracketed (ss.map Text.quoted) ++ ")"

/-- Equality in which floating-point values are compared as numbers. -/
def numEq : Attribute → Attribute → Bool
  | float x, float y => x.numEq y
  | floats xs, floats ys => Binary.numEqList xs ys
  | a, b => a = b

end Attribute

/-- Puts a pair at its place in an ordered list, in place of a pair of the same name. -/
def insertPair (key : String) (value : Attribute) :
    List (String × Attribute) → List (String × Attribute)
  | [] => [(key, value)]
  | (k, v) :: rest =>
    if key = k then (key, value) :: rest
    else if key < k then (key, value) :: (k, v) :: rest
    else (k, v) :: insertPair key value rest

/-- Are the names in ascending order, so that each occurs once? -/
def Ordered (pairs : List (String × Attribute)) : Prop :=
  pairs.Pairwise fun a b => a.1 < b.1

/-- Inserting a pair brings in no name but its own. -/
theorem mem_insertPair {key : String} {value : Attribute} {pairs : List (String × Attribute)}
    {pair : String × Attribute} (h : pair ∈ insertPair key value pairs) :
    pair = (key, value) ∨ pair ∈ pairs := by
  induction pairs with
  | nil => simpa [insertPair] using h
  | cons first rest ih =>
    obtain ⟨k, v⟩ := first
    simp only [insertPair] at h
    split at h
    · simp only [List.mem_cons] at h ⊢
      exact h.imp_right Or.inr
    · split at h
      · simpa using h
      · simp only [List.mem_cons] at h ⊢
        exact h.elim (fun e => Or.inr (Or.inl e)) fun m => (ih m).imp_right Or.inr

theorem Ordered.insertPair {pairs : List (String × Attribute)} (h : Ordered pairs) (key : String)
    (value : Attribute) : Ordered (insertPair key value pairs) := by
  induction pairs with
  | nil => simp [Ordered, TensorGraph.insertPair]
  | cons first rest ih =>
    obtain ⟨k, v⟩ := first
    have hrest := List.pairwise_cons.1 h
    simp only [TensorGraph.insertPair]
    split
    · next e => exact List.pairwise_cons.2 ⟨fun b hb => e ▸ hrest.1 b hb, hrest.2⟩
    · split
      · next lt =>
        refine List.pairwise_cons.2 ⟨fun b hb => ?_, h⟩
        rcases List.mem_cons.1 hb with rfl | hb
        · exact lt
        · exact String.lt_trans lt (hrest.1 b hb)
      · next ne nlt =>
        refine List.pairwise_cons.2 ⟨fun b hb => ?_, ih hrest.2⟩
        rcases mem_insertPair hb with rfl | hb
        · exact Std.lt_of_le_of_ne nlt fun e => ne e.symm
        · exact hrest.1 b hb

theorem find?_insertPair (key k : String) (value : Attribute) (pairs : List (String × Attribute)) :
    (insertPair key value pairs).find? (·.1 = k) =
      if k = key then some (key, value) else pairs.find? (·.1 = k) := by
  induction pairs with
  | nil =>
    by_cases e : key = k
    · simp [insertPair, e]
    · simp [insertPair, e, Ne.symm e]
  | cons first rest ih =>
    simp only [insertPair]
    by_cases e : k = key
    · subst e
      split
      · simp
      · split
        · simp
        · next other _ => simp [Ne.symm other, ih]
    · split
      · next same => simp [← same, Ne.symm e]
      · split
        · simp [Ne.symm e]
        · simp [List.find?_cons, ih, e]

/-- The attributes of a node by name, in the order of the names. -/
structure AttributeMap where
  /-- Names and values. -/
  entries : List (String × Attribute)
  /-- The names are in order and occur once. -/
  ordered : Ordered entries := by simp [Ordered]
deriving DecidableEq

namespace AttributeMap

/-- No attributes. -/
def empty : AttributeMap := { entries := [] }

/-- The value of a name. -/
def find? (m : AttributeMap) (key : String) : Option Attribute :=
  (m.entries.find? (·.1 = key)).map Prod.snd

/-- The names, in order. -/
def keys (m : AttributeMap) : List String := m.entries.map Prod.fst

/-- The map with the value of `key` set. -/
def insert (m : AttributeMap) (key : String) (value : Attribute) : AttributeMap :=
  ⟨insertPair key value m.entries, m.ordered.insertPair key value⟩

/-- The map without `key`. -/
def erase (m : AttributeMap) (key : String) : AttributeMap :=
  ⟨m.entries.filter (·.1 ≠ key), List.Pairwise.filter _ m.ordered⟩

@[simp] theorem find?_empty (key : String) : empty.find? key = none := rfl

theorem find?_insert (m : AttributeMap) (key k : String) (value : Attribute) :
    (m.insert key value).find? k = if k = key then some value else m.find? k := by
  simp only [find?, insert, find?_insertPair]
  split <;> rfl

theorem find?_erase (m : AttributeMap) (key k : String) :
    (m.erase key).find? k = if k = key then none else m.find? k := by
  simp only [find?, erase, List.find?_filter]
  split
  · next e =>
    subst e
    simp
  · next e =>
    congr 2
    funext pair
    by_cases h : pair.1 = k <;> simp [h, e]

/-- The map of a list of pairs, later ones before earlier ones of the same name. -/
def ofList (pairs : List (String × Attribute)) : AttributeMap :=
  pairs.foldl (fun m pair => m.insert pair.1 pair.2) empty

/-- The value of a name, if it is an integer. -/
def int? (m : AttributeMap) (key : String) : Option Int :=
  match m.find? key with
  | some (.int i) => some i.toInt
  | _ => none

end AttributeMap

end TensorGraph

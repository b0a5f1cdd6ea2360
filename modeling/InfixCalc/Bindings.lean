import InfixCalc.Name

/-!
# Bindings

A set of bindings gives values to names, at most one to each, and to no reserved name. There are
three ways to build one: from a list of pairs, by inserting bindings one at a time, and by merging
two sets. An insertion replaces a value; the other two refuse to bind a name twice.
-/

namespace InfixCalc

/-- Names with their values, in the order in which the names were first bound. -/
structure Bindings where
  entries : List (String × Float)

namespace Bindings

/-- No bindings. -/
def empty : Bindings := ⟨[]⟩

/-- The value of a name. -/
def get? (b : Bindings) (name : String) : Option Float := b.entries.lookup name

/-- Whether a name has a value. -/
def contains (b : Bindings) (name : String) : Bool := (b.get? name).isSome

/-- The names that have a value. -/
def names (b : Bindings) : List String := b.entries.map (·.1)

/-- The number of bindings. -/
def size (b : Bindings) : Nat := b.entries.length

/-- Whether there are no bindings. -/
def isEmpty (b : Bindings) : Bool := b.entries.isEmpty

/-- Give a value to a name that may have one already. -/
def put (b : Bindings) (name : String) (value : Float) : Bindings :=
  if b.contains name then
    ⟨b.entries.map fun (n, v) ↦ if n == name then (n, value) else (n, v)⟩
  else ⟨b.entries ++ [(name, value)]⟩

/-- Give a value to a name. The result holds the value that it had before as well. -/
def insert (b : Bindings) (name : String) (value : Float) :
    Except EvaluationError (Option Float × Bindings) :=
  (checkName name).map fun _ ↦ (b.get? name, b.put name value)

/-- Give a value to a name that has none yet. -/
def insertNew (b : Bindings) (name : String) (value : Float) : Except EvaluationError Bindings :=
  (checkName name).bind fun _ ↦
    if b.contains name then .error (.duplicateVariable name) else .ok (b.put name value)

/-- Bind the names of a list of pairs, in this order. -/
def ofPairs (pairs : List (String × Float)) : Except EvaluationError Bindings :=
  pairs.foldlM (fun b (name, value) ↦ b.insertNew name value) empty

/-- Add the bindings of another set that has no name in common with this one. -/
def merge (b other : Bindings) : Except EvaluationError Bindings :=
  match other.names.find? b.contains with
  | some name => .error (.duplicateVariable name)
  | none => .ok ⟨b.entries ++ other.entries⟩

/-- Whether two sets bind the same names to equal numbers. -/
def agrees (b other : Bindings) : Bool :=
  b.size == other.size && b.entries.all fun (name, value) ↦ (other.get? name).any (value == ·)

end Bindings

end InfixCalc

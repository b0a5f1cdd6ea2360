import InfixCalc.Bindings

/-!
# Sources of values

An evaluation looks the values of variables up in a source. Every source has a check of its own,
which comes before an evaluation and can refuse it for any reason. A source that can list its names
refuses reserved ones; one that cannot is asked as it is, and is never asked for the name of a
constant.
-/

namespace InfixCalc

/-- Something that gives values to names. -/
structure Source where
  /-- What comes of the check before an evaluation. -/
  check : Except EvaluationError Unit
  /-- The value of a name. -/
  get? : String → Option Float

/-- Refuse the first reserved name of a list. -/
def checkNames (names : List String) : Except EvaluationError Unit := names.forM checkName

namespace Source

/-- The source without any values. -/
def empty : Source := ⟨.ok (), fun _ ↦ none⟩

/-- A source that computes its values and cannot list its names. -/
def ofFunction (get? : String → Option Float) : Source := ⟨.ok (), get?⟩

/-- The values of a set of bindings, whose names have been checked already. -/
def ofBindings (b : Bindings) : Source := ⟨.ok (), b.get?⟩

/-- The last value that a list of pairs gives to a name. -/
def lastValue? (pairs : List (String × Float)) (name : String) : Option Float :=
  pairs.reverse.lookup name

/-- A table of values whose names are checked before an evaluation. -/
def ofTable (pairs : List (String × Float)) : Source :=
  ⟨checkNames (pairs.map (·.1)), lastValue? pairs⟩

/-- Whether a name comes no later than another one in ascending order of characters. -/
def nameLe (m n : String) : Bool := !(n < m)

/-- A table of values whose names are checked in ascending order. -/
def ofSortedTable (pairs : List (String × Float)) : Source :=
  ⟨checkNames ((pairs.map (·.1)).mergeSort nameLe), lastValue? pairs⟩

/-- A reference to a source, which passes every question on to it. -/
def reference (s : Source) : Source := ⟨s.check, s.get?⟩

/-- The value of a name: that of a constant, or else that of the source. -/
def resolve (s : Source) (draw : Float) (name : String) : Except EvaluationError Float :=
  match (Constant.ofName? name).map (Constant.value draw) <|> s.get? name with
  | some value => .ok value
  | none => .error (.unknownVariable name)

end Source

end InfixCalc

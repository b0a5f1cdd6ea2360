/-!
# Evaluation errors

The ways in which an evaluation, or the preparation of the bindings for one, can fail.
-/

namespace InfixCalc

/-- Why there is no value. -/
inductive EvaluationError where
  /-- A variable has no value in the source. -/
  | unknownVariable (name : String)
  /-- A binding has the name of a builtin function or a constant. -/
  | reservedName (name : String)
  /-- A name is bound twice. -/
  | duplicateVariable (name : String)
  /-- A program takes more values from the stack than there are, or leaves others than one. -/
  | stackImbalance (depth : Nat)
  deriving DecidableEq, Repr

/-- The text that is shown to the user. -/
def EvaluationError.message : EvaluationError → String
  | .unknownVariable name => "Unknown variable '" ++ name ++ "'."
  | .reservedName name => "Invalid variable name '" ++ name ++ "': the name is reserved."
  | .duplicateVariable name => "Variable '" ++ name ++ "' is bound more than once."
  | .stackImbalance depth =>
    "Internal error: evaluation ended with " ++ toString depth ++ " value(s) on the stack."

end InfixCalc

import InfixCalc.Machine
import InfixCalc.Conversion

/-!
# The calculator

A statement is compiled once and can then be evaluated with many sources. `calculate` does both in
one go, and `trace` tells what happens in doing so.
-/

namespace InfixCalc

/-- Why a statement has no value. -/
inductive CalculationError where
  | parse (error : Rejection)
  | eval (error : EvaluationError)
  deriving DecidableEq, Repr

/-- The text that is shown to the user, if there is one. -/
def CalculationError.message? : CalculationError → Option String
  | .parse error => error.display?
  | .eval error => some error.message

/-- The value of a statement. -/
def calculate (statement : String) (source : Source) (draws : Draws) :
    Except CalculationError Float :=
  match parse statement with
  | .error error => .error (.parse error)
  | .ok program => (program.evaluate source draws).mapError .eval

/-- What happens in compiling and evaluating a statement, with the value. -/
def trace (statement : String) (source : Source) (draws : Draws) :
    List Event × Except CalculationError Float :=
  let compilation := compile statement
  match compilation.result with
  | .error fault => (compilation.log, .error (.parse { fault with statement }))
  | .ok program =>
    let value := program.evaluate source draws
    (compilation.log ++ program.evaluationLog value, value.mapError .eval)

end InfixCalc

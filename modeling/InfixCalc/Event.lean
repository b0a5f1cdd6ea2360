import InfixCalc.Number.Text
import InfixCalc.Operator
import InfixCalc.Rejection

/-!
# Events

What can be told about the work on a statement beside its result.
-/

namespace InfixCalc

/-- How much an event matters. -/
inductive Level where
  | trace | debug | info
  deriving DecidableEq, Repr

/-- The name of a level. -/
def Level.name : Level → String
  | .trace => "TRACE"
  | .debug => "DEBUG"
  | .info => "INFO"

/-- Something that happened. -/
inductive Event where
  /-- A waiting operator was applied because another one came after it. -/
  | reduced (waiting incoming : Operator)
  /-- An operator began to wait for its right operand. -/
  | shifted (op : Operator)
  /-- A statement was compiled. -/
  | compiled (statement : String) (instructions : Nat)
  /-- A statement was refused. -/
  | rejected (statement : String) (cause : Cause)
  /-- A program was carried out. -/
  | evaluated (instructions : Nat) (value : Float)
  /-- The value of a statement was given to the user. -/
  | answered (statement : String) (value : Float)
  deriving DecidableEq

namespace Event

/-- How much an event matters. -/
def level : Event → Level
  | .reduced .. | .shifted _ | .evaluated .. => .trace
  | .compiled .. | .rejected .. => .debug
  | .answered .. => .info

/-- An event in words. -/
def message : Event → String
  | .reduced waiting incoming => "reduce " ++ waiting.text ++ " before " ++ incoming.text
  | .shifted op => "shift " ++ op.text
  | .compiled statement instructions =>
    "compiled " ++ Text.quote statement ++ " into " ++ toString instructions ++ " instruction(s)"
  | .rejected statement cause => "rejected " ++ Text.quote statement ++ ": " ++ cause.message
  | .evaluated instructions value =>
    "evaluated " ++ toString instructions ++ " instruction(s) to " ++ Number.render value
  | .answered statement value => statement ++ " = " ++ Number.render value

end Event

end InfixCalc

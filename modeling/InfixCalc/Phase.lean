import InfixCalc.Operator
import InfixCalc.Rejection

/-!
# Phases of a statement

Whether a token may stand where it does depends on little of what comes before it: on whether an
operand has just ended, an operator or a group has just begun, or neither.
-/

namespace InfixCalc

/-- A token as the grammar sees it. -/
inductive Terminal where
  | operator (op : Operator)
  | opening
  | closing
  | comma
  | operand
  deriving DecidableEq, Repr

/-- What the grammar remembers of the tokens read so far. -/
inductive Phase where
  /-- At the start of the statement or of a further argument. -/
  | start
  /-- Right after an opening parenthesis. -/
  | afterOpening
  /-- After an operand. -/
  | afterOperand
  /-- After an operator. -/
  | afterOperator
  deriving DecidableEq, Repr

namespace Phase

/-- Whether an operator would be the sign of the operand after it. -/
def allowsSign : Phase → Bool
  | .start | .afterOpening => true
  | _ => false

/-- Whether an operand has just ended. -/
def endsOperand : Phase → Bool
  | .afterOperand => true
  | _ => false

/-- The phase after a token, or why the token cannot stand here. -/
def next : Phase → Terminal → Except Cause Phase
  | phase, .operator op =>
    if phase.endsOperand || phase.allowsSign && op.isSign then .ok .afterOperator
    else .error (.unexpectedOperator op.symbol)
  | .afterOperand, .opening => .error .operatorExpected
  | _, .opening => .ok .afterOpening
  | .afterOperand, .operand => .error .operatorExpected
  | _, .operand => .ok .afterOperand
  | .afterOperand, .closing => .ok .afterOperand
  | .afterOpening, .closing => .error .emptyParentheses
  | _, .closing => .error .unexpectedCloseParen
  | .afterOperand, .comma => .ok .start
  | _, .comma => .error .unexpectedComma

end Phase

end InfixCalc

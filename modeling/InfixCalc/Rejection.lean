import InfixCalc.Text.Quoted

/-!
# Rejections

The ways in which a statement can break the rules of the language, the place where it does, and
how both are shown to the user.
-/

namespace InfixCalc

/-- Why a statement cannot be compiled. -/
inductive Cause where
  /-- A character that the language does not use. -/
  | illegalCharacter (found : Char)
  /-- An operator where an operand has to stand. -/
  | unexpectedOperator (operator : Char)
  /-- Two operands with nothing between them. -/
  | operatorExpected
  /-- A pair of parentheses around nothing. -/
  | emptyParentheses
  /-- A closing parenthesis after an operator or a comma, at the start, or without its opening. -/
  | unexpectedCloseParen
  /-- A comma outside of a call or not after an operand. -/
  | unexpectedComma
  /-- The name of a function without its arguments. -/
  | missingOpenParen (function : String)
  /-- A call with too few or too many arguments. -/
  | argumentCount (function : String) (expected found : Nat)
  /-- A run of characters that starts like a number but is none. -/
  | invalidNumber (literal : String)
  /-- A statement that ends with an operator. -/
  | trailingOperator
  /-- A statement that ends before all parentheses are closed. -/
  | unclosedParen
  deriving DecidableEq, Repr

/-- A cause in one sentence. -/
def Cause.message : Cause → String
  | .illegalCharacter found => "Unexpected character " ++ Text.quoteChar found ++ "."
  | .unexpectedOperator operator => "Unexpected operator '" ++ String.singleton operator ++ "'."
  | .operatorExpected => "An operator is expected between operands."
  | .emptyParentheses => "There is nothing between '(' and ')'."
  | .unexpectedCloseParen => "Unexpected ')'."
  | .unexpectedComma => "Unexpected ','."
  | .missingOpenParen function => "Function '" ++ function ++ "' must be followed by '('."
  | .argumentCount function expected found =>
    "Function '" ++ function ++ "' requires " ++ toString expected ++ " parameter(s), but "
      ++ toString found ++ " were given."
  | .invalidNumber literal => "Unparsable number '" ++ literal ++ "'."
  | .trailingOperator => "Statement ends with an operator."
  | .unclosedParen => "One or more ')' required in the statement."

/-- A cause together with the byte offset at which it was noticed, if it has a place of its own. -/
structure Fault where
  cause : Cause
  index : Option Nat
  deriving DecidableEq, Repr

/-- A cause that was noticed at a place. -/
def Cause.at (cause : Cause) (index : Nat) : Fault := ⟨cause, some index⟩

/-- A cause that concerns the statement as a whole. -/
def Cause.overall (cause : Cause) : Fault := ⟨cause, none⟩

/-- A statement that cannot be compiled, with its fault. -/
structure Rejection extends Fault where
  statement : String
  deriving DecidableEq, Repr

namespace Rejection

/-- What is wrong, in one sentence. -/
def message (r : Rejection) : String := r.cause.message

/-- The width up to which a line can be filled with blanks. -/
def caretLimit : Nat := 65535

/-- The message with the statement below it, and below that a caret under the place. There is no
such text for a place at which the caret cannot be set. -/
def display? (r : Rejection) : Option String :=
  match r.index with
  | some i =>
    if i < caretLimit then
      some ("Error at index " ++ toString i ++ ": " ++ r.message ++ "\n  " ++ r.statement ++ "\n  "
        ++ String.ofList (List.replicate i ' ') ++ "^")
    else none
  | none => some ("Error: " ++ r.message ++ "\n  " ++ r.statement)

end Rejection

end InfixCalc

import InfixCalc.Name
import InfixCalc.Number.Text
import InfixCalc.Operator

/-!
# Programs

A program is a list of instructions for a machine with a stack of numbers, in the order in which
they are carried out. Every instruction takes its operands off the stack and puts its result there,
so a program is an expression in postfix form.
-/

namespace InfixCalc

/-- An instruction. -/
inductive Instruction where
  /-- Put a number on the stack. -/
  | number (value : Float)
  /-- Put the value of a variable or a constant on the stack. -/
  | variable (name : String)
  /-- Replace the two topmost numbers by the result of an operator. -/
  | operator (op : Operator)
  /-- Replace the topmost numbers by the value of a function. -/
  | call (function : Builtin) (arguments : Nat)
  deriving DecidableEq

namespace Instruction

/-- The postfix text of an instruction. -/
def text : Instruction → String
  | .number value => Number.render value
  | .variable name => name
  | .operator op => op.text
  | .call function arguments => function.name ++ "/" ++ toString arguments

/-- How many numbers more, or fewer, are on the stack after an instruction. -/
def stackEffect : Instruction → Int
  | .number _ | .variable _ => 1
  | .operator _ => -1
  | .call _ arguments => 1 - arguments

/-- Whether two instructions are the same, where numbers are compared as numbers: zeros of both
signs are equal, and NaN is not even equal to itself. -/
def agrees : Instruction → Instruction → Bool
  | .number x, .number y => x == y
  | .variable m, .variable n => m == n
  | .operator p, .operator q => p == q
  | .call f m, .call g n => f == g && m == n
  | _, _ => false

/-- The name of the variable that an instruction reads, unless it is a constant. -/
def free? : Instruction → Option String
  | .variable name => if (Constant.ofName? name).isSome then none else some name
  | _ => none

/-- Whether an instruction uses up a random number. -/
def draws : Instruction → Bool
  | .variable name => Constant.ofName? name == some .rand
  | _ => false

end Instruction

/-- A list of instructions, in the order in which they are carried out. -/
structure Program where
  code : List Instruction

namespace Program

/-- The postfix text of a program. -/
def text (p : Program) : String := " ".intercalate (p.code.map Instruction.text)

/-- The names of the variables that a program reads, in the order of their first use. -/
def freeVariables (p : Program) : List String := (p.code.filterMap Instruction.free?).eraseDups

/-- How many random numbers a program uses up if it is carried out to its end. -/
def drawCount (p : Program) : Nat := p.code.countP Instruction.draws

/-- Whether two programs consist of the same instructions. -/
def agrees (p q : Program) : Bool :=
  p.code.length == q.code.length && (p.code.zip q.code).all fun (i, j) ↦ i.agrees j

instance : BEq Program := ⟨agrees⟩

/-- The program of a blank statement. -/
def empty : Program := ⟨[]⟩

end Program

end InfixCalc

import InfixCalc.Draws
import InfixCalc.Event
import InfixCalc.Program
import InfixCalc.Source

/-!
# The stack machine

A machine carries out the instructions of a program on a stack of numbers. It stops at the first
one that fails: at a variable without a value, or where the stack does not hold what an instruction
takes. A program that comes to its end has to leave one number on the stack, which is its value.
-/

namespace InfixCalc

/-- The state of a machine. -/
structure Machine where
  /-- The numbers on the stack, the topmost one first. -/
  stack : List Float
  /-- How many random numbers have been used up. -/
  drawn : Nat

namespace Machine

/-- Before the first instruction. -/
def initial : Machine := ⟨[], 0⟩

/-- The number of values on the stack. -/
def depth (m : Machine) : Nat := m.stack.length

/-- The arguments of a call, if its function takes as many and they are on the stack. -/
def arguments? (m : Machine) (function : Builtin) (count : Nat) : Option (List Float) :=
  if function.arity.accepts count && count ≤ m.depth then some (m.stack.take count).reverse
  else none

/-- Carry out an instruction. -/
def step (source : Source) (draws : Draws) (m : Machine) (i : Instruction) :
    Except EvaluationError Machine :=
  match i with
  | .number value => .ok { m with stack := value :: m.stack }
  | .variable name =>
    (source.resolve (draws m.drawn) name).map fun value ↦
      ⟨value :: m.stack, if i.draws then m.drawn + 1 else m.drawn⟩
  | .operator op =>
    match m.stack with
    | right :: left :: rest => .ok { m with stack := op.apply left right :: rest }
    | _ => .error (.stackImbalance 0)
  | .call function count =>
    match (m.arguments? function count).bind function.apply with
    | some value => .ok { m with stack := value :: m.stack.drop count }
    | none => .error (.stackImbalance m.depth)

/-- Carry out a list of instructions. -/
def run (source : Source) (draws : Draws) (m : Machine) (code : List Instruction) :
    Except EvaluationError Machine :=
  code.foldlM (step source draws) m

@[simp] theorem run_nil (source : Source) (draws : Draws) (m : Machine) :
    m.run source draws [] = .ok m := rfl

@[simp] theorem run_cons (source : Source) (draws : Draws) (m : Machine) (i : Instruction)
    (code : List Instruction) :
    m.run source draws (i :: code) = (m.step source draws i).bind (·.run source draws code) := rfl

theorem run_append (source : Source) (draws : Draws) (m : Machine) (code rest : List Instruction) :
    m.run source draws (code ++ rest) =
      (m.run source draws code).bind (·.run source draws rest) := by
  simp only [run, List.foldlM_append]
  rfl

/-- The only number on the stack. -/
def value (m : Machine) : Except EvaluationError Float :=
  match m.stack with
  | [value] => .ok value
  | _ => .error (.stackImbalance m.depth)

end Machine

/-- The value of a program. A blank one has the value zero, though its source is checked as well.
What the check of the source finds is the outcome before anything else. -/
def Program.evaluate (p : Program) (source : Source) (draws : Draws) :
    Except EvaluationError Float :=
  source.check.bind fun _ ↦
    if p.code.isEmpty then .ok 0
    else (Machine.initial.run source draws p.code).bind Machine.value

/-- What happens in an evaluation, given its result. -/
def Program.evaluationLog (p : Program) : Except EvaluationError Float → List Event
  | .ok value => if p.code.isEmpty then [] else [.evaluated p.code.length value]
  | .error _ => []

end InfixCalc

import InfixCalc.Machine
import InfixCalc.Proofs.Builtin.Application
import InfixCalc.Proofs.Except

/-!
# Expression trees

A tree is an expression without its spelling: no parentheses, no commas and no order of operators
is left in it. Its instructions in postorder are a program, `Tree.code`, and its value can be found
without any stack, by recursion on the tree, `Tree.eval`.

`Tree.eval` counts the random numbers that have been used up, as a machine does.
-/

namespace InfixCalc

/-- An expression without its spelling. -/
inductive Tree where
  | number (value : Float)
  | variable (name : String)
  | binary (op : Operator) (left right : Tree)
  | call (function : Builtin) (arguments : List Tree)

namespace Tree

mutual
/-- The instructions of a tree in postorder. -/
def code : Tree → List Instruction
  | .number value => [.number value]
  | .variable name => [.variable name]
  | .binary op left right => left.code ++ right.code ++ [.operator op]
  | .call function arguments => codes arguments ++ [.call function arguments.length]

/-- The instructions of several trees, one after the other. -/
def codes : List Tree → List Instruction
  | [] => []
  | t :: ts => t.code ++ codes ts
end

mutual
/-- The names in a tree from left to right, those of constants among them. -/
def names : Tree → List String
  | .number _ => []
  | .variable name => [name]
  | .binary _ left right => left.names ++ right.names
  | .call _ arguments => namesOfAll arguments

/-- The names in several trees from left to right. -/
def namesOfAll : List Tree → List String
  | [] => []
  | t :: ts => t.names ++ namesOfAll ts
end

mutual
/-- Whether every function in a tree is called with as many arguments as it takes. -/
def Applicable : Tree → Prop
  | .number _ => True
  | .variable _ => True
  | .binary _ left right => left.Applicable ∧ right.Applicable
  | .call function arguments =>
    function.arity.accepts arguments.length ∧ AllApplicable arguments

/-- Whether several trees are applicable. -/
def AllApplicable : List Tree → Prop
  | [] => True
  | t :: ts => t.Applicable ∧ AllApplicable ts
end

mutual
/-- The value of a tree when `drawn` random numbers have been used up, and how many have been
afterwards. -/
def eval (source : Source) (draws : Draws) : Tree → Nat → Except EvaluationError (Float × Nat)
  | .number value, drawn => .ok (value, drawn)
  | .variable name, drawn => do
    let value ← source.resolve (draws drawn) name
    return (value, if Constant.ofName? name = some .rand then drawn + 1 else drawn)
  | .binary op left right, drawn => do
    let (x, drawn) ← left.eval source draws drawn
    let (y, drawn) ← right.eval source draws drawn
    return (op.apply x y, drawn)
  | .call function arguments, drawn => do
    let (xs, drawn) ← evals source draws arguments drawn
    return (function.value xs, drawn)

/-- The values of several trees, found from left to right. -/
def evals (source : Source) (draws : Draws) :
    List Tree → Nat → Except EvaluationError (List Float × Nat)
  | [], drawn => .ok ([], drawn)
  | t :: ts, drawn => do
    let (x, drawn) ← t.eval source draws drawn
    let (xs, drawn) ← evals source draws ts drawn
    return (x :: xs, drawn)
end

/-! ### Appending -/

@[simp] lemma codes_append (ts us : List Tree) : codes (ts ++ us) = codes ts ++ codes us := by
  induction ts with
  | nil => rfl
  | cons t ts ih => simp [codes, ih]

@[simp] lemma allApplicable_append (ts us : List Tree) :
    AllApplicable (ts ++ us) ↔ AllApplicable ts ∧ AllApplicable us := by
  induction ts with
  | nil => simp [AllApplicable]
  | cons t ts ih => simp [AllApplicable, ih, and_assoc]

lemma code_ne_nil (t : Tree) : t.code ≠ [] := by
  cases t <;> simp [code]

end Tree

end InfixCalc

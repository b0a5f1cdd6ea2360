import InfixCalc.Number.Arithmetic

/-!
# Operators

The six binary operators of the language: how they are written, how tightly they bind and what
they compute.

Operators bind in three tiers. Of two operators next to each other the one of the higher tier is
applied first, and within a tier the left one, unless the right one groups to the right.
-/

namespace InfixCalc

/-- A binary operator. -/
inductive Operator where
  | add | sub | mul | div | rem | pow
  deriving DecidableEq, Repr

namespace Operator

/-- All operators, in the order of the precedence table. -/
def all : List Operator := [.add, .sub, .mul, .div, .rem, .pow]

theorem mem_all (op : Operator) : op ∈ all := by cases op <;> decide

/-- The character that an operator is written as. -/
def symbol : Operator → Char
  | .add => '+'
  | .sub => '-'
  | .mul => '*'
  | .div => '/'
  | .rem => '%'
  | .pow => '^'

/-- The text of an operator. -/
def text (op : Operator) : String := String.singleton op.symbol

/-- The operator that a character stands for. -/
def ofSymbol? : Char → Option Operator
  | '+' => some .add
  | '-' => some .sub
  | '*' => some .mul
  | '/' => some .div
  | '%' => some .rem
  | '^' => some .pow
  | _ => none

@[simp] theorem ofSymbol?_symbol (op : Operator) : ofSymbol? op.symbol = some op := by
  cases op <;> rfl

theorem ofSymbol?_eq_some_iff {c : Char} {op : Operator} :
    ofSymbol? c = some op ↔ c = op.symbol := by
  refine ⟨fun h ↦ ?_, fun h ↦ h ▸ ofSymbol?_symbol op⟩
  unfold ofSymbol? at h
  split at h <;> first | (cases h; rfl) | contradiction

/-- The row and column of an operator in the precedence table. -/
def index : Operator → Fin 6
  | .add => 0
  | .sub => 1
  | .mul => 2
  | .div => 3
  | .rem => 4
  | .pow => 5

/-- Whether the operator can stand before an operand with nothing to its left. -/
def isSign : Operator → Bool
  | .add | .sub => true
  | _ => false

/-! ### Binding -/

/-- How tightly an operator binds. -/
def tier : Operator → Nat
  | .add | .sub => 0
  | .mul | .div | .rem => 1
  | .pow => 2

/-- Whether `a ^ b ^ c` is `a ^ (b ^ c)`. -/
def isRightAssociative : Operator → Bool
  | .pow => true
  | _ => false

/-- What the precedence table says of an operator that waits for its right operand when another
one comes after it. -/
inductive Relation where
  /-- The waiting operator binds tighter and is applied first. -/
  | reduce
  /-- The incoming operator binds tighter and is applied first. -/
  | shift
  /-- Both bind equally, and the side to which they group decides. -/
  | tie
  deriving DecidableEq, Repr

open Operator.Relation renaming reduce → R, shift → S, tie → T in
/-- The precedence table. It has a row for every waiting operator and a column for every incoming
one. -/
def precedence : Vector (Vector Relation 6) 6 := #v[
    -- + - * / % ^
    row T T S S S S, -- +
    row T T S S S S, -- -
    row R R T T T S, -- *
    row R R T T T S, -- /
    row R R T T T S, -- %
    row R R R R R T] -- ^
where
  /-- A row of the table. -/
  row (add sub mul div rem pow : Relation) : Vector Relation 6 := #v[add, sub, mul, div, rem, pow]

/-- What the precedence table says of two operators. -/
def relation (waiting incoming : Operator) : Relation :=
  precedence[waiting.index][incoming.index]

/-- The precedence table compares tiers. -/
theorem relation_eq_compare (waiting incoming : Operator) :
    waiting.relation incoming =
      match compare waiting.tier incoming.tier with
      | .gt => .reduce
      | .lt => .shift
      | .eq => .tie := by
  cases waiting <;> cases incoming <;> rfl

/-- Whether a waiting operator is applied before one that comes after it. -/
def yieldsTo (waiting incoming : Operator) : Bool :=
  match waiting.relation incoming with
  | .reduce => true
  | .shift => false
  | .tie => !incoming.isRightAssociative

/-! ### Values -/

/-- Apply an operator to its left and its right operand. -/
def apply : Operator → Float → Float → Float
  | .add, x, y => x + y
  | .sub, x, y => x - y
  | .mul, x, y => x * y
  | .div, x, y => x / y
  | .rem, x, y => Number.remainder x y
  | .pow, x, y => x.pow y

end Operator

end InfixCalc

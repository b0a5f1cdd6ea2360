import InfixCalc.Builtin
import InfixCalc.EvaluationError

/-!
# Reserved names

The names that a variable cannot have: those of the builtin functions and those of the constants.
-/

namespace InfixCalc

/-- A name with a value of its own. -/
inductive Constant where
  /-- The base of the natural logarithm. -/
  | e
  /-- The ratio of a circle's circumference to its diameter. -/
  | pi
  /-- A fresh random number at every use, from zero up to but not including one. -/
  | rand
  deriving DecidableEq, Repr

namespace Constant

/-- All constants. -/
def all : List Constant := [.e, .pi, .rand]

theorem mem_all (c : Constant) : c ∈ all := by cases c <;> decide

/-- The name by which a constant is used. -/
def name : Constant → String
  | .e => "E"
  | .pi => "PI"
  | .rand => "rand"

/-- The constant with a given name. Letters match only in their own case. -/
def ofName? (name : String) : Option Constant := all.find? (·.name == name)

@[simp] theorem ofName?_name (c : Constant) : ofName? c.name = some c := by cases c <;> decide

theorem ofName?_eq_some_iff {name : String} {c : Constant} :
    ofName? name = some c ↔ name = c.name := by
  refine ⟨fun h ↦ ?_, fun h ↦ h ▸ ofName?_name c⟩
  unfold ofName? at h
  have := List.find?_some h
  exact (eq_of_beq this).symm

/-- The value of a constant, given the random number that is drawn next. -/
def value (draw : Float) : Constant → Float
  | .e => 2.718281828459045
  | .pi => 3.141592653589793
  | .rand => draw

end Constant

/-- Whether a name belongs to a builtin function or a constant. -/
def isReserved (name : String) : Bool :=
  (Builtin.ofName? name).isSome || (Constant.ofName? name).isSome

/-- Refuse a reserved name. -/
def checkName (name : String) : Except EvaluationError Unit :=
  if isReserved name then .error (.reservedName name) else .ok ()

end InfixCalc

import InfixCalc.Number.Arithmetic

/-!
# Builtin functions

The functions that a statement can call, each with its name, the number of arguments that it takes
and what it computes.
-/

namespace InfixCalc

/-- The numbers of arguments that a function takes. -/
inductive Arity where
  /-- Just so many arguments. -/
  | exact (count : Nat)
  /-- One argument or more. -/
  | variadic
  deriving DecidableEq, Repr

/-- Whether a function can be called with `n` arguments. -/
def Arity.accepts : Arity → Nat → Bool
  | .exact count, n => n == count
  | .variadic, n => 1 ≤ n

/-- A function that a statement can call. -/
inductive Builtin where
  | abs | acos | asin | atan | atan2 | ceil | clamp | clamp01 | cos | cosh | exp | floor | lerp
  | lg | ln | log | max | min | pow | round | sign | sin | sinh | sqrt | tan | tanh
  deriving DecidableEq, Repr

namespace Builtin

/-- All functions, in alphabetical order. -/
def all : List Builtin :=
  [.abs, .acos, .asin, .atan, .atan2, .ceil, .clamp, .clamp01, .cos, .cosh, .exp, .floor, .lerp,
    .lg, .ln, .log, .max, .min, .pow, .round, .sign, .sin, .sinh, .sqrt, .tan, .tanh]

theorem mem_all (f : Builtin) : f ∈ all := by cases f <;> decide

/-- The name by which a function is called. -/
def name : Builtin → String
  | .abs => "abs"
  | .acos => "acos"
  | .asin => "asin"
  | .atan => "atan"
  | .atan2 => "atan2"
  | .ceil => "ceil"
  | .clamp => "clamp"
  | .clamp01 => "clamp01"
  | .cos => "cos"
  | .cosh => "cosh"
  | .exp => "exp"
  | .floor => "floor"
  | .lerp => "lerp"
  | .lg => "lg"
  | .ln => "ln"
  | .log => "log"
  | .max => "max"
  | .min => "min"
  | .pow => "pow"
  | .round => "round"
  | .sign => "sign"
  | .sin => "sin"
  | .sinh => "sinh"
  | .sqrt => "sqrt"
  | .tan => "tan"
  | .tanh => "tanh"

/-- The function with a given name. Letters match only in their own case. -/
def ofName? (name : String) : Option Builtin := all.find? (·.name == name)

@[simp] theorem ofName?_name (f : Builtin) : ofName? f.name = some f := by cases f <;> decide

theorem ofName?_eq_some_iff {name : String} {f : Builtin} :
    ofName? name = some f ↔ name = f.name := by
  refine ⟨fun h ↦ ?_, fun h ↦ h ▸ ofName?_name f⟩
  unfold ofName? at h
  have := List.find?_some h
  exact (eq_of_beq this).symm

/-- The numbers of arguments that a function takes. -/
def arity : Builtin → Arity
  | .atan2 | .log | .pow => .exact 2
  | .clamp | .lerp => .exact 3
  | .max | .min => .variadic
  | _ => .exact 1

/-- The value of a function at its arguments in the order of the call. A function that takes a fixed
number of arguments has none at fewer or more. -/
def apply : Builtin → List Float → Option Float
  | .abs, [x] => some x.abs
  | .acos, [x] => some x.acos
  | .asin, [x] => some x.asin
  | .atan, [x] => some x.atan
  | .atan2, [y, x] => some (y.atan2 x)
  | .ceil, [x] => some x.ceil
  | .clamp, [value, lo, hi] => some (Number.clamp value lo hi)
  | .clamp01, [x] => some (Number.clamp x 0 1)
  | .cos, [x] => some x.cos
  | .cosh, [x] => some x.cosh
  | .exp, [x] => some x.exp
  | .floor, [x] => some x.floor
  | .lerp, [start, stop, t] => some (Number.lerp start stop t)
  | .lg, [x] => some x.log10
  | .ln, [x] => some x.log
  | .log, [value, base] => some (Number.logBase value base)
  | .max, xs => some (Number.maximum xs)
  | .min, xs => some (Number.minimum xs)
  | .pow, [x, y] => some (x.pow y)
  | .round, [x] => some (Number.roundHalfEven x)
  | .sign, [x] => some (Number.sign x)
  | .sin, [x] => some x.sin
  | .sinh, [x] => some x.sinh
  | .sqrt, [x] => some x.sqrt
  | .tan, [x] => some x.tan
  | .tanh, [x] => some x.tanh
  | _, _ => none

theorem isSome_apply (f : Builtin) (xs : List Float) :
    (f.apply xs).isSome ↔ f.arity = .variadic ∨ f.arity = .exact xs.length := by
  cases f <;> rcases xs with _ | ⟨x, _ | ⟨y, _ | ⟨z, _ | ⟨w, rest⟩⟩⟩⟩ <;> simp [apply, arity]

/-- The name and arity of a function, as they are shown to a programmer. -/
def describe (f : Builtin) : String :=
  let arity := match f.arity with
    | .exact count => "Exact(" ++ toString count ++ ")"
    | .variadic => "Variadic"
  "Builtin \x7b name: \"" ++ f.name ++ "\", arity: " ++ arity ++ ", .. \x7d"

end Builtin

end InfixCalc

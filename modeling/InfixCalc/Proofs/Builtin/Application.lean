import InfixCalc.Builtin
import Mathlib.Tactic.Common

/-!
# Application of functions

A function has a value at arguments of every number that it takes.
-/

namespace InfixCalc

lemma Arity.accepts_iff {a : Arity} {n : Nat} :
    a.accepts n ↔ a = .exact n ∨ a = .variadic ∧ 1 ≤ n := by
  cases a with
  | exact count => simpa [Arity.accepts] using eq_comm
  | variadic => simp [Arity.accepts]

namespace Builtin

variable {f : Builtin} {xs : List Float}

/-- The value of a function at arguments of a number that it takes. -/
def value (f : Builtin) (xs : List Float) : Float := (f.apply xs).getD Number.nan

lemma isSome_apply_of_accepts (h : f.arity.accepts xs.length) : (f.apply xs).isSome := by
  rw [isSome_apply]
  rcases Arity.accepts_iff.mp h with hexact | ⟨hvariadic, -⟩
  · exact .inr hexact
  · exact .inl hvariadic

lemma apply_eq_some (h : f.arity.accepts xs.length) : f.apply xs = some (f.value xs) := by
  obtain ⟨v, hv⟩ := Option.isSome_iff_exists.mp (isSome_apply_of_accepts h)
  simp [value, hv]

end Builtin

end InfixCalc

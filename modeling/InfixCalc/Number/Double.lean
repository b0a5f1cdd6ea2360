import InfixCalc.Number.Format

/-!
# The numbers of the language

A number is a `Float`. Its sign and the code word of its magnitude are read off its bits, and a
number is built from them again. Operations that have to be exact go through these views.
-/

namespace InfixCalc.Number

/-- The highest bit of a number, which holds its sign. -/
def signBit : Nat := 1 <<< 63

/-- Whether the sign bit is set. Zeros have a sign, too. -/
def isNegative (x : Float) : Bool := signBit ≤ x.toBits.toNat

/-- The code word of the magnitude. -/
def word (x : Float) : Nat := x.toBits.toNat % signBit

/-- The number with a given sign and code word. -/
def ofWord (negative : Bool) (word : Nat) : Float :=
  Float.ofBits (UInt64.ofNat (if negative then signBit + word else word))

/-- The magnitude of a finite number, in units of the least positive one. -/
def units (x : Float) : Nat := Format.double.units (word x)

/-- The number with a given sign that is nearest to `num / den` units. -/
def ofUnits (negative : Bool) (num den : Nat) : Float :=
  ofWord negative (Format.double.nearest num den)

/-- The result of an operation that has no value. -/
def nan : Float := Float.ofBits 0x7FF8000000000000

/-- The number above all others. -/
def infinity : Float := ofWord false Format.double.infinity

end InfixCalc.Number

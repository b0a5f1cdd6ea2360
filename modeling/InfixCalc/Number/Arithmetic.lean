import InfixCalc.Number.Double

/-!
# Arithmetic

The operations on numbers that the language offers beside those of the machine: the exact
remainder, rounding to whole numbers, sign, clamping, interpolation, logarithms to a base, and the
largest and smallest of a list.
-/

namespace InfixCalc.Number

/-- The exact remainder of a division that truncates. It has the sign of the dividend, also where
it is zero. -/
def remainder (x y : Float) : Float :=
  if x.isNaN || y.isNaN || x.isInf || y == 0 then nan
  else if y.isInf then x
  else ofUnits (isNegative x) (units x % units y) 1

/-- The nearest whole number, a half going to the even one. The sign is kept, also of zero. -/
def roundHalfEven (x : Float) : Float :=
  if x.isNaN || x.isInf then x
  else
    let one := Format.double.one
    ofUnits (isNegative x) (divHalfEven (units x) one * one) 1

/-- One with the sign of `x`; zeros and NaN stay themselves. -/
def sign (x : Float) : Float :=
  if x > 0 then 1 else if x < 0 then -1 else x * 0

/-- Restrict a value to the range between two bounds, which may be given in either order. -/
def clamp (value lo hi : Float) : Float :=
  let least := if lo > hi then hi else lo
  let greatest := if lo > hi then lo else hi
  if value < least then least else if value > greatest then greatest else value

/-- The point that is `t` of the way from one number to another. -/
def lerp (start stop t : Float) : Float := (stop - start) * t + start

/-- The logarithm of `value` to a base. -/
def logBase (value base : Float) : Float := value.log / base.log

/-- The larger of two numbers: the first where they are equal, the other one beside a NaN. -/
def larger (x y : Float) : Float := if x.isNaN then y else if y > x then y else x

/-- The smaller of two numbers: the first where they are equal, the other one beside a NaN. -/
def smaller (x y : Float) : Float := if x.isNaN then y else if y < x then y else x

/-- The largest number of a list that is not NaN. -/
def maximum (xs : List Float) : Float := xs.foldl larger nan

/-- The smallest number of a list that is not NaN. -/
def minimum (xs : List Float) : Float := xs.foldl smaller nan

end InfixCalc.Number

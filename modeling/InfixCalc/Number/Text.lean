import InfixCalc.Number.Shortest

/-!
# The text of a number

`render` writes the shortest numeral that is read back as the number, without an exponent. `read?`
reads every numeral, also with a sign, and the names of infinity and NaN.

No part of the calculator writes or reads the other forms at the end. They are there to compare its
results with those of other programs, and to hand numbers over to it.
-/

namespace InfixCalc.Number

/-! ### Writing -/

/-- Put a minus sign before the text of a magnitude if the number is negative. -/
def signed (negative : Bool) (magnitude : List Char) : String :=
  String.ofList (if negative then '-' :: magnitude else magnitude)

/-- The shortest numeral that is read back as the number, without an exponent. -/
def render (x : Float) : String :=
  if x.isNaN then "NaN"
  else if x.isInf then signed (isNegative x) ['i', 'n', 'f']
  else if word x = 0 then signed (isNegative x) ['0']
  else signed (isNegative x) (shortest (word x)).positional

/-! ### Reading -/

/-- What a numeral means before it is rounded. -/
inductive Numeral where
  | nan
  | infinite (negative : Bool)
  | finite (negative : Bool) (magnitude : Decimal)
  deriving DecidableEq, Repr

namespace Numeral

/-- Read a magnitude: the name of infinity or of NaN in letters of any case, or digits. -/
def readMagnitude? (negative : Bool) (cs : List Char) : Option Numeral :=
  let name := String.ofList (cs.map Char.toLower)
  if name = "inf" ∨ name = "infinity" then some (.infinite negative)
  else if name = "nan" then some .nan
  else (Decimal.read? cs).map (.finite negative)

/-- Read a magnitude with at most one sign before it. -/
def read? : List Char → Option Numeral
  | '-' :: cs => readMagnitude? true cs
  | '+' :: cs => readMagnitude? false cs
  | cs => readMagnitude? false cs

/-- The number nearest to a numeral. -/
def toFloat : Numeral → Float
  | .nan => Number.nan
  | .infinite negative => ofWord negative Format.double.infinity
  | .finite negative d => ofWord negative (d.nearest .double)

end Numeral

/-- Read a number. -/
def read? (s : String) : Option Float := (Numeral.read? s.toList).map Numeral.toFloat

/-! ### Forms for comparison

The functions of two platforms can differ in the last digits of their results, which
`renderRounded` leaves out. A number of the narrower format is handed over widened. -/

/-- How many significant digits `renderRounded` writes. -/
def roundedDigits : Nat := 12

/-- Round a positive whole number to the significant digits that are written, a half going to the
even neighbour. The first part has just as many digits, the second is the power of ten of its
first digit. -/
def roundSignificant (n : Nat) : Nat × Nat :=
  let count := (Decimal.digitsOf n).length
  let rounded := divHalfEven (n * Decimal.tenPower roundedDigits) (Decimal.tenPower count)
  if rounded = Decimal.tenPower roundedDigits then
    (Decimal.tenPower (roundedDigits - 1), count)
  else (rounded, count - 1)

/-- Twelve significant digits and a power of ten. -/
def renderRounded (x : Float) : String :=
  if x.isNaN || x.isInf then render x
  else
    let (digits, exponent) : Nat × Int :=
      if word x = 0 then (0, 0)
      else
        let (digits, place) := roundSignificant (fineUnits (word x))
        (digits, place - finest)
    let written := Decimal.digitsOf digits
    let padded := List.replicate (roundedDigits - written.length) '0' ++ written
    signed (isNegative x) (padded.take 1 ++ '.' :: padded.drop 1)
      ++ "e" ++ (if exponent < 0 then "-" else "")
      ++ String.ofList (Decimal.digitsOf exponent.natAbs)

/-- The number of the narrower format nearest to a numeral, widened. -/
def Numeral.toFloatOfSingle : Numeral → Float
  | .nan => Number.nan
  | .infinite negative => ofWord negative Format.double.infinity
  | .finite negative d =>
    let word := d.nearest .single
    if word = Format.single.infinity then ofWord negative Format.double.infinity
    else ofUnits negative (Format.single.units word * Format.double.one) Format.single.one

/-- Read a number, rounding to the narrower format. -/
def readSingle? (s : String) : Option Float :=
  (Numeral.read? s.toList).map Numeral.toFloatOfSingle

end InfixCalc.Number

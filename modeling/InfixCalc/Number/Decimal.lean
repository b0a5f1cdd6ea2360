import InfixCalc.Number.Double

/-!
# Decimals

A decimal is a whole number of some power of ten. Decimals stand between numbers and their text: a
numeral is read as a decimal and then rounded to a binary format, and a number is first brought to
the decimal that its text shows.
-/

namespace InfixCalc.Number

/-- The value `digits * 10 ^ exponent`. -/
structure Decimal where
  digits : Nat
  exponent : Int
  deriving DecidableEq, Repr

namespace Decimal

/-- The power of ten with a given exponent. -/
def tenPower (exponent : Nat) : Nat := Nat.pow 10 exponent

/-! ### Writing -/

/-- The decimal digits of a whole number, the first one first. -/
def digitsOf (n : Nat) : List Char := Nat.toDigits 10 n

/-- Positional notation without an exponent. A point stands only before a fraction, and a digit
always stands before the point. -/
def positional (d : Decimal) : List Char :=
  match d.exponent with
  | .ofNat zeros =>
    if d.digits = 0 then ['0'] else digitsOf d.digits ++ List.replicate zeros '0'
  | .negSucc n =>
    let written := digitsOf d.digits
    let padded := List.replicate (n + 2 - written.length) '0' ++ written
    padded.take (padded.length - (n + 1)) ++ '.' :: padded.drop (padded.length - (n + 1))

/-! ### Reading -/

/-- The value of a list of decimal digits. -/
def ofDigits (cs : List Char) : Nat := cs.foldl (fun n c ↦ 10 * n + (c.toNat - '0'.toNat)) 0

/-- Read a signed whole number that takes up the whole text. -/
def readExponent? : List Char → Option Int
  | '-' :: cs => if cs ≠ [] ∧ cs.all Char.isDigit then some (-(ofDigits cs : Int)) else none
  | '+' :: cs => if cs ≠ [] ∧ cs.all Char.isDigit then some (ofDigits cs) else none
  | cs => if cs ≠ [] ∧ cs.all Char.isDigit then some (ofDigits cs) else none

/-- Read what may follow the digits of a numeral: nothing, or a power of ten after `e` or `E`. -/
def readScale? : List Char → Option Int
  | [] => some 0
  | c :: cs => if c = 'e' ∨ c = 'E' then readExponent? cs else none

/-- Read an unsigned numeral: digits with at most one point among or beside them, then perhaps a
power of ten. -/
def read? (cs : List Char) : Option Decimal :=
  let whole := cs.takeWhile Char.isDigit
  let rest := cs.dropWhile Char.isDigit
  let fraction := match rest with
    | '.' :: r => r.takeWhile Char.isDigit
    | _ => []
  let scale := match rest with
    | '.' :: r => r.dropWhile Char.isDigit
    | _ => rest
  if whole ++ fraction = [] then none
  else (readScale? scale).map fun e ↦ ⟨ofDigits (whole ++ fraction), e - fraction.length⟩

/-! ### Rounding to a binary format -/

/-- Beyond this power of ten, upwards or downwards, every format holds infinity or zero only. -/
def farthest : Nat := 400

/-- The code word nearest to a decimal. Powers of ten that are out of reach are never computed. -/
def nearest (f : Format) (d : Decimal) : Nat :=
  if d.digits = 0 then 0
  else match d.exponent with
    | .ofNat e =>
      if farthest < e then f.infinity else f.nearest (d.digits * tenPower e * f.one) 1
    | .negSucc e =>
      if farthest + d.digits.log2 + 1 < e then 0
      else f.nearest (d.digits * f.one) (tenPower (e + 1))

end Decimal

end InfixCalc.Number

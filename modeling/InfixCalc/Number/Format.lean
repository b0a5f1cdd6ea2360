/-!
# Binary formats

A binary format stores a magnitude as one whole number, its code word: the low bits are the
fraction and the bits above them the exponent. Magnitudes are counted in units of the least
positive one, so that every finite magnitude is a natural number and no arithmetic here is
approximate.

`Format.nearest` gives the code word nearest to a fraction of units, and `Format.units` the exact
magnitude of a code word.
-/

namespace InfixCalc.Number

/-- The quotient of `n` by `d` as a whole number, a half going to the even neighbour. -/
def divHalfEven (n d : Nat) : Nat :=
  let quotient := n / d
  let rest := n % d
  if 2 * rest < d then quotient
  else if d < 2 * rest then quotient + 1
  else quotient + quotient % 2

/-- A binary format, by the bits of a significand and of an exponent. -/
structure Format where
  precision : Nat
  exponentBits : Nat
  deriving DecidableEq, Repr

namespace Format

/-- The format of the language's numbers, 64 bits wide. -/
def double : Format := ⟨53, 11⟩

/-- The format half as wide. -/
def single : Format := ⟨24, 8⟩

/-- How many code words share an exponent. -/
def binade (f : Format) : Nat := 1 <<< (f.precision - 1)

/-- The number one, in units of the least positive magnitude. -/
def one (f : Format) : Nat := 1 <<< ((1 <<< (f.exponentBits - 1)) + f.precision - 3)

/-- The code word of infinity; those of finite magnitudes are below it. -/
def infinity (f : Format) : Nat := ((1 <<< f.exponentBits) - 1) * f.binade

/-- The significand of a finite code word. The least exponent has no hidden leading bit. -/
def significand (f : Format) (word : Nat) : Nat :=
  if word < f.binade then word else f.binade + word % f.binade

/-- The power of two that scales the significand of a finite code word. -/
def exponent (f : Format) (word : Nat) : Nat := word / f.binade - 1

/-- The magnitude of a finite code word. -/
def units (f : Format) (word : Nat) : Nat := f.significand word <<< f.exponent word

/-- The code word nearest to `num / den` units, of two the even one, and infinity where the finite
ones end. A significand that rounds up to a further bit carries into the exponent by itself. -/
def nearest (f : Format) (num den : Nat) : Nat :=
  let shift := (num / den).log2 + 1 - f.precision
  min (shift * f.binade + divHalfEven num (den <<< shift)) f.infinity

end Format

end InfixCalc.Number

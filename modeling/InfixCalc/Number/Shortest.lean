import InfixCalc.Number.Decimal

/-!
# The shortest decimal of a number

Of all decimals that are read back as a given number, the one with the fewest digits is written,
and of those the one nearest to the number.

The decimals that are read back form an interval about the number. A decimal with few digits lies
on a coarse grid of powers of ten, so the search goes from coarse grids to fine ones and takes the
first that has a point in the interval. The finest grid has the number itself on it.
-/

namespace InfixCalc.Number

/-- The finest grid is that of this negative power of ten, on which every finite number lies. -/
def finest : Nat := 1074

/-- A finite magnitude in units of `10 ^ -finest`, exactly. -/
def fineUnits (word : Nat) : Nat := Format.double.units word * Nat.pow 5 finest

/-- A magnitude and the ends of the interval of values that are rounded to it, each four times as
large, so that they are whole. -/
structure Neighbourhood where
  centre : Nat
  low : Nat
  high : Nat
  closed : Bool

namespace Neighbourhood

/-- The values nearest to a finite code word. The gap below the first significand of an exponent is
half as wide, and the ends belong to an even significand. -/
def ofWord (word : Nat) : Neighbourhood :=
  let significand := Format.double.significand word
  let gap := Nat.pow 5 finest <<< Format.double.exponent word
  let narrow := significand = Format.double.binade ∧ Format.double.exponent word ≠ 0
  { centre := 4 * (significand * gap)
    low := 4 * (significand * gap) - (if narrow then gap else 2 * gap)
    high := 4 * (significand * gap) + 2 * gap
    closed := significand % 2 = 0 }

/-- Whether a value lies in the interval. -/
def contains (i : Neighbourhood) (x : Nat) : Bool :=
  if i.closed then i.low ≤ x && x ≤ i.high else i.low < x && x < i.high

/-- The multiple of `step` nearest to the centre among those in the interval; of two that are
equally near the upper one. -/
def onGrid (i : Neighbourhood) (step : Nat) : Option Nat :=
  let below := i.centre / step
  let above := below + 1
  match i.contains (below * step), i.contains (above * step) with
  | true, true => some (if i.centre - below * step < above * step - i.centre then below else above)
  | true, false => some below
  | false, true => some above
  | false, false => none

/-- The nearest point on the coarsest grid that meets the interval, among the grids of
`10 ^ (n - finest)` and finer ones. -/
def shortest (i : Neighbourhood) : Nat → Decimal
  | 0 => ⟨i.centre / 4, -finest⟩
  | n + 1 =>
    match i.onGrid (4 * Decimal.tenPower (n + 1)) with
    | some digits => ⟨digits, (n + 1 : Nat) - finest⟩
    | none => i.shortest n

end Neighbourhood

/-- The exponent of a power of ten above every number with `bits` binary digits. It is hardly
greater than it has to be, since `2 ^ 93` is just below `10 ^ 28`. -/
def tenExponentAbove (bits : Nat) : Nat := bits * 28 / 93 + 1

/-- The shortest decimal of a positive finite code word. The steps of coarser grids than the first
one tried exceed the whole interval. -/
def shortest (word : Nat) : Decimal :=
  let i := Neighbourhood.ofWord word
  i.shortest (tenExponentAbove (i.high.log2 + 1))

end InfixCalc.Number

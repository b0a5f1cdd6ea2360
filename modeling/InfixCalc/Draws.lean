/-!
# Random numbers

The constant `rand` has a fresh value at every use. Its values are the numbers of an endless
sequence, taken in turn, so that an evaluation is a function of its statement, its source and the
sequence.
-/

namespace InfixCalc

/-- An endless sequence of random numbers. -/
def Draws := Nat → Float

namespace Draws

/-- The sequence after its first `n` numbers. -/
def drop (d : Draws) (n : Nat) : Draws := fun i ↦ d (n + i)

/-- Mix the bits of a word, so that words next to each other become unrelated. -/
def mix (x : UInt64) : UInt64 :=
  let x := (x ^^^ (x >>> 30)) * 0xBF58476D1CE4E5B9
  let x := (x ^^^ (x >>> 27)) * 0x94D049BB133111EB
  x ^^^ (x >>> 31)

/-- A number from zero up to but not including one, made of the upper 53 bits of a word. -/
def unitInterval (x : UInt64) : Float := (x >>> 11).toFloat / 9007199254740992

/-- The sequence that belongs to a seed. -/
def ofSeed (seed : UInt64) : Draws := fun i ↦
  unitInterval (mix (seed + (UInt64.ofNat i + 1) * 0x9E3779B97F4A7C15))

end Draws

end InfixCalc

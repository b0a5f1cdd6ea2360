import InfixCalc.Number.Double
import Mathlib

/-!
# Bits of a number

The bits of a number are its sign and the code word of its magnitude, and every number is made of
them again. Code words below that of infinity are those of the finite numbers, and only NaN has one
above it.
-/

namespace InfixCalc.Number

open Float.Model (UnpackedFloat Format.binary64)
open Float.Model.UnpackedFloat (unpack unpackExponent unpackMantissa isNaNBits)

variable {x y : Float} {w : Nat} {negative : Bool}

/-! ### Fields -/

lemma toNat_unpackExponent (b : BitVec 64) :
    (@unpackExponent .binary64 b).toNat = b.toNat / 2 ^ 52 % 2048 := by
  rw [UnpackedFloat.unpackExponent_def, BitVec.extractLsb'_toNat, Nat.shiftRight_eq_div_pow]
  rfl

lemma toNat_unpackMantissa (b : BitVec 64) :
    (@unpackMantissa .binary64 b).toNat = b.toNat % 2 ^ 52 := by
  rw [UnpackedFloat.unpackMantissa_def, BitVec.extractLsb'_toNat, Nat.shiftRight_zero]

lemma unpackExponent_eq_iff (b : BitVec 64) :
    @unpackExponent .binary64 b = -1#11 ↔ b.toNat / 2 ^ 52 % 2048 = 2047 := by
  rw [← BitVec.toNat_inj, toNat_unpackExponent]
  rfl

lemma unpackMantissa_eq_iff (b : BitVec 64) :
    @unpackMantissa .binary64 b = 0#52 ↔ b.toNat % 2 ^ 52 = 0 := by
  rw [← BitVec.toNat_inj, toNat_unpackMantissa]
  rfl

lemma infinity_double : Format.double.infinity = 2047 * 2 ^ 52 := by decide

lemma signBit_eq : signBit = 2 ^ 63 := by decide

lemma isNaNBits_iff (b : BitVec 64) :
    @isNaNBits .binary64 b ↔ Format.double.infinity < b.toNat % signBit := by
  rw [isNaNBits, decide_eq_true_iff, unpackExponent_eq_iff, Ne, unpackMantissa_eq_iff,
    infinity_double, signBit_eq]
  have := b.isLt
  omega

/-! ### Building a number -/

lemma toBits_ofBits {u : UInt64} (h : u.toNat % signBit ≤ Format.double.infinity) :
    (Float.ofBits u).toBits = u := by
  have hbits : ¬ @isNaNBits .binary64 u.toBitVec := by
    rw [isNaNBits_iff]
    exact Nat.not_lt.mpr h
  have hpack := @UnpackedFloat.pack_unpack .binary64 u.toBitVec
  rw [if_neg hbits] at hpack
  exact congrArg UInt64.ofBitVec hpack

lemma toNat_toBits_ofWord (h : w ≤ Format.double.infinity) :
    (ofWord negative w).toBits.toNat = if negative then signBit + w else w := by
  rw [infinity_double] at h
  have hnat : (UInt64.ofNat (if negative then signBit + w else w)).toNat
      = if negative then signBit + w else w := by
    apply UInt64.toNat_ofNat_of_lt'
    rw [signBit_eq]
    split_ifs <;> (simp only [UInt64.size]; omega)
  rw [ofWord, toBits_ofBits, hnat]
  rw [hnat, infinity_double, signBit_eq]
  split_ifs <;> omega

lemma word_ofWord (h : w ≤ Format.double.infinity) : word (ofWord negative w) = w := by
  rw [word, toNat_toBits_ofWord h]
  rw [infinity_double] at h
  rw [signBit_eq]
  split_ifs <;> omega

lemma isNegative_ofWord (h : w ≤ Format.double.infinity) :
    isNegative (ofWord negative w) = negative := by
  rw [isNegative, toNat_toBits_ofWord h]
  rw [infinity_double] at h
  rw [signBit_eq]
  cases negative
  · simp
    omega
  · simp

/-- A number consists of its sign and its code word. -/
lemma ofWord_word (x : Float) : ofWord (isNegative x) (word x) = x := by
  have hnat : (if isNegative x then signBit + word x else word x) = x.toBits.toNat := by
    have := x.toBits.toNat_lt
    rw [isNegative, word, signBit_eq]
    simp only [decide_eq_true_eq]
    split_ifs <;> omega
  rw [ofWord, hnat, UInt64.ofNat_toNat, Float.ofBits_toBits]

/-! ### Kinds of numbers -/

/-- By their code words, infinity lies between the finite numbers and NaN. -/
lemma kind_cases (x : Float) :
    (word x < Format.double.infinity ∧ x.isFinite = true ∧ x.isInf = false ∧ x.isNaN = false) ∨
      (word x = Format.double.infinity ∧ x.isFinite = false ∧ x.isInf = true ∧ x.isNaN = false) ∨
      Format.double.infinity < word x ∧ x.isFinite = false ∧ x.isInf = false ∧ x.isNaN = true := by
  let b := x.toBits.toBitVec
  change (b.toNat % signBit < _ ∧ (unpack .binary64 b).isFinite = true ∧
      (unpack .binary64 b).isInf = false ∧ (unpack .binary64 b).isNaN = false) ∨
    (b.toNat % signBit = _ ∧ (unpack .binary64 b).isFinite = false ∧
      (unpack .binary64 b).isInf = true ∧ (unpack .binary64 b).isNaN = false) ∨
    _ < b.toNat % signBit ∧ (unpack .binary64 b).isFinite = false ∧
      (unpack .binary64 b).isInf = false ∧ (unpack .binary64 b).isNaN = true
  have hlt := b.isLt
  rw [infinity_double, signBit_eq]
  simp only [unpack]
  split_ifs with hexponent hmantissa hzero
  · rw [unpackExponent_eq_iff] at hexponent
    rw [unpackMantissa_eq_iff] at hmantissa
    exact .inr (.inl ⟨by omega, rfl, rfl, rfl⟩)
  · rw [unpackExponent_eq_iff] at hexponent
    rw [unpackMantissa_eq_iff] at hmantissa
    exact .inr (.inr ⟨by omega, rfl, rfl, rfl⟩)
  all_goals
    rw [unpackExponent_eq_iff] at hexponent
    exact .inl ⟨by omega, rfl, rfl, rfl⟩

lemma isFinite_iff : x.isFinite ↔ word x < Format.double.infinity := by
  rcases kind_cases x with ⟨h, hfinite, -⟩ | ⟨h, hfinite, -⟩ | ⟨h, hfinite, -⟩
  · simp [hfinite, h]
  · simp [hfinite, h]
  · simp [hfinite, h.le]

lemma isNaN_eq_false_iff : x.isNaN = false ↔ word x ≤ Format.double.infinity := by
  rcases kind_cases x with ⟨h, -, -, hnan⟩ | ⟨h, -, -, hnan⟩ | ⟨h, -, -, hnan⟩
  · exact iff_of_true hnan h.le
  · exact iff_of_true hnan h.le
  · exact iff_of_false (by rw [hnan]; exact Bool.noConfusion) h.not_ge

lemma not_isInf_of_isFinite (h : x.isFinite) : x.isInf = false := by
  rcases kind_cases x with ⟨-, -, hinf, -⟩ | ⟨-, hfinite, -⟩ | ⟨-, hfinite, -⟩
  · exact hinf
  all_goals
    rw [h] at hfinite
    cases hfinite

/-! ### Equality -/

/-- Of numbers that are not negative and not NaN, only the same are equal. -/
lemma beq_iff_eq_of_nonneg (hx : x.isNaN = false) (hy : y.isNaN = false)
    (hx' : isNegative x = false) (hy' : isNegative y = false) : x == y ↔ x = y := by
  rw [Float.isNaN_eq_decide_eq_nan, decide_eq_false_iff_not] at hx hy
  have hzero : isNegative (-0) = true := by decide
  rw [Float.beq_iff_ne_nan_and_eq]
  constructor
  · rintro ⟨-, -, heq | ⟨-, rfl⟩ | ⟨rfl, -⟩⟩
    · exact heq
    · exact absurd (hzero.symm.trans hy') (by decide)
    · exact absurd (hzero.symm.trans hx') (by decide)
  · intro heq
    exact ⟨hx, hy, .inl heq⟩

end InfixCalc.Number

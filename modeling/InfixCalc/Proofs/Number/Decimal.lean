import InfixCalc.Number.Decimal
import Mathlib.Data.List.TakeWhile

/-!
# Decimals in positional notation

A decimal that is written in positional notation is read again. What is read has the same digits, or
some more zeros in place of a power of ten, so that it has the same value.
-/

namespace InfixCalc.Number.Decimal

variable {d : Decimal} {cs : List Char} {n : Nat}

/-! ### Digits -/

lemma isDigit_of_mem_digitsOf {c : Char} (h : c ∈ digitsOf n) : c.isDigit :=
  Nat.isDigit_of_mem_toDigits (by decide) (by decide) h

lemma ofDigits_digitsOf (n : Nat) : ofDigits (digitsOf n) = n := Nat.ofDigitChars_ten_toDigits

lemma ofDigits_append_zeros (cs : List Char) (n : Nat) :
    ofDigits (cs ++ List.replicate n '0') = ofDigits cs * tenPower n :=
  calc Nat.ofDigitChars 10 (cs ++ List.replicate n '0') 0
      = Nat.ofDigitChars 10 (List.replicate n '0') (ofDigits cs) := Nat.ofDigitChars_append 0
    _ = 10 ^ n * ofDigits cs := Nat.ofDigitChars_replicate_zero
    _ = ofDigits cs * tenPower n := Nat.mul_comm _ _

lemma ofDigits_zeros_append (n : Nat) (cs : List Char) :
    ofDigits (List.replicate n '0' ++ cs) = ofDigits cs :=
  calc Nat.ofDigitChars 10 (List.replicate n '0' ++ cs) 0
      = Nat.ofDigitChars 10 cs (Nat.ofDigitChars 10 (List.replicate n '0') 0) :=
        Nat.ofDigitChars_append 0
    _ = ofDigits cs := by
      rw [Nat.ofDigitChars_replicate_zero, Nat.mul_zero]
      rfl

lemma isDigit_of_mem_zeros {c : Char} (h : c ∈ List.replicate n '0') : c.isDigit := by
  rw [List.eq_of_mem_replicate h]
  rfl

/-! ### Positional notation -/

/-- A text of digits, or of digits around a point, and the decimal that it stands for. -/
inductive Positional : List Char → Decimal → Prop where
  | whole {cs : List Char} (hne : cs ≠ []) (h : ∀ c ∈ cs, c.isDigit) :
      Positional cs ⟨ofDigits cs, 0⟩
  | fraction {whole fraction : List Char} (hne : whole ≠ []) (hwhole : ∀ c ∈ whole, c.isDigit)
      (hfraction : ∀ c ∈ fraction, c.isDigit) :
      Positional (whole ++ '.' :: fraction) ⟨ofDigits (whole ++ fraction), -fraction.length⟩

namespace Positional

variable (h : Positional cs d)
include h

lemma read? : Decimal.read? cs = some d := by
  cases h with
  | whole hne h =>
    have htake : cs.takeWhile Char.isDigit = cs := List.takeWhile_eq_self_iff.mpr h
    have hdrop : cs.dropWhile Char.isDigit = [] := List.dropWhile_eq_nil_iff.mpr h
    simp [Decimal.read?, htake, hdrop, hne, readScale?]
  | @fraction whole fraction hne hwhole hfraction =>
    have htake : (whole ++ '.' :: fraction).takeWhile Char.isDigit = whole := by
      rw [List.takeWhile_append_of_pos hwhole]
      exact List.append_nil _
    have hdrop : (whole ++ '.' :: fraction).dropWhile Char.isDigit = '.' :: fraction := by
      rw [List.dropWhile_append_of_pos hwhole]
      rfl
    have htake' : fraction.takeWhile Char.isDigit = fraction :=
      List.takeWhile_eq_self_iff.mpr hfraction
    have hdrop' : fraction.dropWhile Char.isDigit = [] := List.dropWhile_eq_nil_iff.mpr hfraction
    simp [Decimal.read?, htake, hdrop, htake', hdrop', hne, readScale?]

/-- The first character is a digit. -/
lemma exists_cons : ∃ c rest, cs = c :: rest ∧ c.isDigit := by
  cases h with
  | whole hne h =>
    obtain ⟨c, rest, rfl⟩ := List.exists_cons_of_ne_nil hne
    exact ⟨c, rest, rfl, h c List.mem_cons_self⟩
  | fraction hne hwhole hfraction =>
    obtain ⟨c, rest, rfl⟩ := List.exists_cons_of_ne_nil hne
    exact ⟨c, _, rfl, hwhole c List.mem_cons_self⟩

lemma isDigit_or_eq {c : Char} (hc : c ∈ cs) : c.isDigit ∨ c = '.' := by
  cases h with
  | whole hne h => exact .inl (h c hc)
  | fraction hne hwhole hfraction =>
    rcases List.mem_append.mp hc with hc | hc
    · exact .inl (hwhole c hc)
    · rcases List.mem_cons.mp hc with rfl | hc
      · exact .inr rfl
      · exact .inl (hfraction c hc)

end Positional

lemma positional_zero : Positional ['0'] ⟨0, 0⟩ :=
  .whole (List.cons_ne_nil _ _) (List.forall_mem_singleton.mpr rfl)

/-- The decimal of the same value whose exponent is not positive. -/
def spread (d : Decimal) : Decimal := ⟨d.digits * tenPower d.exponent.toNat, min d.exponent 0⟩

lemma positional_whole (digits zeros : Nat) :
    Positional (positional ⟨digits, zeros⟩) (spread ⟨digits, zeros⟩) := by
  have hspread : spread ⟨digits, zeros⟩ = ⟨digits * tenPower zeros, 0⟩ :=
    congrArg (Decimal.mk _) (Int.min_eq_right (Int.natCast_nonneg zeros))
  rw [hspread]
  by_cases hzero : digits = 0
  · have hzeros : positional ⟨digits, zeros⟩ = ['0'] := if_pos hzero
    rw [hzeros, hzero, Nat.zero_mul]
    exact positional_zero
  · have hdigits : positional ⟨digits, zeros⟩ = digitsOf digits ++ List.replicate zeros '0' :=
      if_neg hzero
    rw [hdigits, ← ofDigits_digitsOf digits, ← ofDigits_append_zeros, ofDigits_digitsOf]
    refine .whole (List.append_ne_nil_of_left_ne_nil Nat.toDigits_ne_nil _) ?_
    rw [List.forall_mem_append]
    exact ⟨fun c => isDigit_of_mem_digitsOf, fun c => isDigit_of_mem_zeros⟩

/-- A point before the last `n` digits. -/
lemma Positional.point {n : Nat} (h : ∀ c ∈ cs, c.isDigit) (hlength : n < cs.length) :
    Positional (cs.take (cs.length - n) ++ '.' :: cs.drop (cs.length - n)) ⟨ofDigits cs, -n⟩ := by
  have hdrop : (cs.drop (cs.length - n)).length = n := by
    rw [List.length_drop]
    omega
  have htake : cs.take (cs.length - n) ≠ [] := by
    rw [← List.length_pos_iff, List.length_take]
    omega
  have hcs : cs.take (cs.length - n) ++ cs.drop (cs.length - n) = cs := List.take_append_drop _ _
  have hfraction : ∀ c ∈ cs.drop (cs.length - n), c.isDigit :=
    fun c hc => h c (List.mem_of_mem_drop hc)
  have hpoint := Positional.fraction htake (fun c hc => h c (List.mem_of_mem_take hc)) hfraction
  rwa [hcs, hdrop] at hpoint

lemma positional_fraction (digits n : Nat) :
    Positional (positional ⟨digits, .negSucc n⟩) (spread ⟨digits, .negSucc n⟩) := by
  have hspread : spread ⟨digits, .negSucc n⟩ = ⟨digits, -(n + 1 : Nat)⟩ :=
    congrArg (Decimal.mk · _) (Nat.mul_one digits)
  have hdigit : ∀ c ∈ List.replicate (n + 2 - (digitsOf digits).length) '0' ++ digitsOf digits,
      c.isDigit := by
    rw [List.forall_mem_append]
    exact ⟨fun c => isDigit_of_mem_zeros, fun c => isDigit_of_mem_digitsOf⟩
  have hpoint := Positional.point (n := n + 1) hdigit (by simp; omega)
  rw [ofDigits_zeros_append, ofDigits_digitsOf] at hpoint
  rw [hspread]
  exact hpoint

/-- Positional notation stands for the decimal that is written. -/
theorem positional_positional (d : Decimal) : Positional d.positional d.spread := by
  obtain ⟨digits, zeros | n⟩ := d
  · exact positional_whole digits zeros
  · exact positional_fraction digits n

end InfixCalc.Number.Decimal

import InfixCalc.Number.Text
import InfixCalc.Proofs.Number.Decimal
import InfixCalc.Proofs.Number.Double
import InfixCalc.Proofs.Number.Format

/-!
# Numbers as text

The shortest decimal of a number lies among the values that are rounded to the number, so the text
of a finite number is read back as the same number. Unless it has a sign, that text consists of
digits, perhaps with a point among them.
-/

namespace InfixCalc.Number

variable {w k n m t step : Nat} {x : Float} {cs : List Char} {d : Decimal}

/-! ### The shortest decimal -/

namespace Neighbourhood

variable {i : Neighbourhood}

lemma contains_iff : i.contains n ↔
    i.low ≤ n ∧ n ≤ i.high ∧ (i.closed = false → i.low < n ∧ n < i.high) := by
  rw [contains]
  cases i.closed
  · simp
    omega
  · simp

lemma contains_of_onGrid (h : i.onGrid step = some k) : i.contains (k * step) := by
  simp only [onGrid] at h
  split at h
  · rename_i hbelow habove
    split_ifs at h
    · cases h
      exact hbelow
    · cases h
      exact habove
  · rename_i hbelow habove
    cases h
    exact hbelow
  · rename_i hbelow habove
    cases h
    exact habove
  · cases h

/-- The search ends on a grid that has a point in the interval, at the latest on the one that has
the centre on it. -/
lemma exists_shortest (h : i.contains (i.centre / 4 * 4)) (n : Nat) :
    ∃ k m, i.shortest n = ⟨k, (m : Nat) - finest⟩ ∧ i.contains (4 * (k * Decimal.tenPower m)) := by
  induction n with
  | zero =>
    refine ⟨i.centre / 4, 0, ?_, ?_⟩
    · rw [shortest, Int.natCast_zero, Int.zero_sub]
    · have hzero : i.centre / 4 * Decimal.tenPower 0 = i.centre / 4 := Nat.mul_one _
      rwa [hzero, Nat.mul_comm]
  | succ n ih =>
    rw [shortest]
    cases hgrid : i.onGrid (4 * Decimal.tenPower (n + 1)) with
    | none => exact ih
    | some k =>
      refine ⟨k, n + 1, rfl, ?_⟩
      rw [Nat.mul_left_comm]
      exact contains_of_onGrid hgrid

/-- The interval about a code word on any grid, given the least magnitude on that grid. -/
def around (step word : Nat) : Neighbourhood :=
  let significand := Format.double.significand word
  let gap := step <<< Format.double.exponent word
  let narrow := significand = Format.double.binade ∧ Format.double.exponent word ≠ 0
  { centre := 4 * (significand * gap)
    low := 4 * (significand * gap) - (if narrow then gap else 2 * gap)
    high := 4 * (significand * gap) + 2 * gap
    closed := significand % 2 = 0 }

lemma ofWord_eq (w : Nat) : ofWord w = around (Nat.pow 5 finest) w := rfl

section Around

variable (hstep : 0 < step) (hw : 0 < w)
include hstep hw

lemma gap_le_centre : 0 < step <<< Format.double.exponent w ∧ step <<< Format.double.exponent w
    ≤ Format.double.significand w * step <<< Format.double.exponent w := by
  constructor
  · rw [Nat.shiftLeft_eq]
    exact Nat.mul_pos hstep (Nat.two_pow_pos _)
  · exact Nat.le_mul_of_pos_left _ (Format.significand_pos hw)

lemma contains_centre : (around step w).contains ((around step w).centre / 4 * 4) := by
  obtain ⟨hgap, hle⟩ := gap_le_centre hstep hw
  rw [contains_iff]
  simp only [around]
  split_ifs <;> omega

lemma two_mul_le_low : 2 * step ≤ (around step w).low := by
  obtain ⟨hgap, hle⟩ := gap_le_centre hstep hw
  have := Nat.le_shiftLeft (a := step) (b := Format.double.exponent w)
  simp only [around]
  split_ifs <;> omega

/-- Every value in the interval about a code word is rounded to it. -/
lemma rounds_of_contains (h : (around step w).contains (4 * n)) :
    Format.double.Rounds n step w := by
  obtain ⟨hgap, hle⟩ := gap_le_centre hstep hw
  rw [contains_iff] at h
  obtain ⟨hlow, hhigh, hopen⟩ := h
  simp only [around] at hlow hhigh hopen
  constructor
  · split_ifs at hlow <;> omega
  · intro hs he
    rw [if_pos ⟨hs, he⟩] at hlow
    omega
  · omega
  · intro hodd
    have := hopen (decide_eq_false (by omega))
    split_ifs at this <;> omega

end Around

end Neighbourhood

/-! ### Reading it back -/

namespace Decimal

variable {f : Format}

lemma tenPower_pos (n : Nat) : 0 < tenPower n := Nat.pow_pos (by decide)

lemma tenPower_add (m n : Nat) : tenPower (m + n) = tenPower m * tenPower n := Nat.pow_add 10 m n

lemma tenPower_le (h : m ≤ n) : tenPower m ≤ tenPower n := Nat.pow_le_pow_right (by decide) h

/-- A point of a grid is rounded as a fraction of the least magnitude on that grid. -/
lemma nearest_spread (hone : f.one * step = tenPower t) (hstep : 0 < step) (hk : k ≠ 0)
    (hreach : t ≤ farthest + k.log2 + m + 2) :
    (spread ⟨k, (m : Int) - t⟩).nearest f = f.nearest (k * tenPower m) step := by
  rcases Nat.lt_or_ge m t with h | h
  · obtain ⟨j, rfl⟩ := Nat.exists_eq_add_of_lt h
    have hspread : spread ⟨k, (m : Int) - (m + j + 1 : Nat)⟩ = ⟨k, .negSucc j⟩ := by
      have hj : (m : Int) - (m + j + 1 : Nat) = .negSucc j := by omega
      rw [hj]
      exact congrArg (Decimal.mk · _) (Nat.mul_one k)
    have hnear : ¬ farthest + k.log2 + 1 < j := by omega
    rw [hspread]
    simp only [nearest, if_neg hk, if_neg hnear]
    refine Format.nearest_congr f (tenPower_pos _) hstep ?_
    rw [Nat.mul_assoc, hone, Nat.mul_assoc, ← tenPower_add, Nat.add_assoc]
  · obtain ⟨j, rfl⟩ := Nat.exists_eq_add_of_le h
    have hspread : spread ⟨k, (t + j : Nat) - (t : Int)⟩ = ⟨k * tenPower j, .ofNat 0⟩ := by
      have hj : (t + j : Nat) - (t : Int) = j := by omega
      rw [hj]
      exact congrArg (Decimal.mk _) (Int.min_eq_right (Int.natCast_nonneg j))
    have hne : k * tenPower j ≠ 0 := Nat.mul_ne_zero hk (tenPower_pos j).ne'
    have hzero : k * tenPower j * tenPower 0 = k * tenPower j := Nat.mul_one _
    rw [hspread]
    simp only [nearest, if_neg hne, if_neg (Nat.not_lt_zero farthest)]
    refine Format.nearest_congr f Nat.one_pos hstep ?_
    rw [hzero, Nat.mul_assoc _ f.one, hone, tenPower_add, Nat.mul_one, Nat.mul_assoc,
      Nat.mul_comm (tenPower j)]

/-- A decimal that is not too small for the format is within reach. -/
lemma reach_of_le (h : 4 * tenPower (t - farthest - 2) ≤ 2 * step)
    (hlow : 2 * step ≤ 4 * (k * tenPower m)) : t ≤ farthest + k.log2 + m + 2 := by
  by_contra! hfar
  have hdigits : k < tenPower (k.log2 + 1) :=
    Nat.lt_log2_self.trans_le (Nat.pow_le_pow_left (by decide) _)
  have hlt : k * tenPower m < tenPower (k.log2 + 1) * tenPower m :=
    Nat.mul_lt_mul_of_pos_right hdigits (tenPower_pos m)
  rw [← tenPower_add] at hlt
  have hle : tenPower (k.log2 + 1 + m) ≤ tenPower (t - farthest - 2) := tenPower_le (by omega)
  omega

end Decimal

lemma fivePower_pos (n : Nat) : 0 < Nat.pow 5 n := Nat.pow_pos (by decide)

lemma shiftLeft_mul_fivePower (n : Nat) : 1 <<< n * Nat.pow 5 n = Decimal.tenPower n := by
  rw [Nat.one_shiftLeft]
  exact (Nat.mul_pow 2 5 n).symm

lemma one_double : Format.double.one = 1 <<< finest := by
  rw [Format.one]
  congr 1

lemma one_mul_fivePower : Format.double.one * Nat.pow 5 finest = Decimal.tenPower finest := by
  rw [one_double, shiftLeft_mul_fivePower]

lemma tenPower_le_fivePower :
    4 * Decimal.tenPower (finest - Decimal.farthest - 2) ≤ 2 * Nat.pow 5 finest := by
  decide +kernel

/-- The shortest decimal of a number is rounded to the number. -/
lemma nearest_shortest (hw : 0 < w) (hfinite : w ≤ Format.double.infinity) :
    (shortest w).spread.nearest .double = w := by
  have hstep := fivePower_pos finest
  have hcentre : (Neighbourhood.ofWord w).contains ((Neighbourhood.ofWord w).centre / 4 * 4) :=
    Neighbourhood.contains_centre hstep hw
  obtain ⟨k, m, hshortest, hcontains⟩ := Neighbourhood.exists_shortest hcentre
    (tenExponentAbove ((Neighbourhood.ofWord w).high.log2 + 1))
  rw [Neighbourhood.ofWord_eq] at hcontains
  have hlow := (Neighbourhood.two_mul_le_low hstep hw).trans
    (Neighbourhood.contains_iff.mp hcontains).1
  have hk : k ≠ 0 := by
    rintro rfl
    omega
  have hreach := Decimal.reach_of_le tenPower_le_fivePower hlow
  rw [shortest, hshortest, Decimal.nearest_spread one_mul_fivePower hstep hk hreach]
  exact Format.nearest_of_rounds (by decide) hstep hfinite
    (Neighbourhood.rounds_of_contains hstep hw hcontains)

/-! ### Numerals -/

lemma nearest_le_infinity (f : Format) (d : Decimal) : d.nearest f ≤ f.infinity := by
  rw [Decimal.nearest]
  have hle (num den : Nat) : f.nearest num den ≤ f.infinity := Nat.min_le_right _ _
  split_ifs
  · exact Nat.zero_le _
  · split <;> split_ifs
    · exact le_rfl
    · exact hle _ _
    · exact Nat.zero_le _
    · exact hle _ _

lemma toLower_of_isDigit {c : Char} (h : c.isDigit) : c.toLower = c := by
  apply Char.toLower_eq_of_not_isUpper
  grind [Char.isDigit, Char.isUpper]

/-- No name starts with a digit. -/
lemma ofList_map_toLower_ne {c e : Char} {rest : List Char} (h : c.isDigit)
    (he : e.isDigit = false) :
    String.ofList ((c :: cs).map Char.toLower) ≠ String.ofList (e :: rest) := by
  rw [List.map_cons, toLower_of_isDigit h]
  intro heq
  cases String.ofList_injective heq
  rw [h] at he
  cases he

/-- A text that starts with a digit has no sign and is no name. -/
lemma Numeral.read?_of_isDigit {c : Char} (h : c.isDigit) :
    Numeral.read? (c :: cs) = (Decimal.read? (c :: cs)).map (.finite false) := by
  have hmagnitude : Numeral.read? (c :: cs) = readMagnitude? false (c :: cs) := by
    rw [Numeral.read?]
    · rintro rest ⟨⟩
      cases h
    · rintro rest ⟨⟩
      cases h
  rw [hmagnitude, readMagnitude?, if_neg, if_neg]
  · exact ofList_map_toLower_ne h (by decide : 'n'.isDigit = false)
  · rintro (hinf | hinfinity)
    · exact ofList_map_toLower_ne h (by decide : 'i'.isDigit = false) hinf
    · exact ofList_map_toLower_ne h (by decide : 'i'.isDigit = false) hinfinity

/-- What is read of a text that starts with a digit has no sign and is not NaN. -/
lemma of_read?_of_isDigit {s : String} {c : Char} (hs : s.toList = c :: cs) (hc : c.isDigit)
    (h : read? s = some x) : x.isNaN = false ∧ isNegative x = false := by
  rw [Number.read?, hs, Numeral.read?_of_isDigit hc, Option.map_map] at h
  obtain ⟨d, -, rfl⟩ := Option.map_eq_some_iff.mp h
  have hle := nearest_le_infinity .double d
  constructor
  · rw [isNaN_eq_false_iff]
    exact (word_ofWord hle).trans_le hle
  · exact isNegative_ofWord hle

/-- The text of a finite number without a sign is in positional notation. -/
lemma exists_positional_render (h : x.isFinite) (hsign : isNegative x = false) :
    ∃ d : Decimal, Decimal.Positional (render x).toList d ∧ d.nearest .double = word x := by
  have hword := isFinite_iff.mp h
  have hnan : ¬ x.isNaN = true := Bool.eq_false_iff.mp (isNaN_eq_false_iff.mpr hword.le)
  have hinf : ¬ x.isInf = true := Bool.eq_false_iff.mp (not_isInf_of_isFinite h)
  have htext (cs : List Char) : (signed false cs).toList = cs := String.toList_ofList
  rw [render, if_neg hnan, if_neg hinf, hsign]
  by_cases hzero : word x = 0
  · rw [if_pos hzero, hzero, htext]
    exact ⟨⟨0, 0⟩, Decimal.positional_zero, if_pos rfl⟩
  · rw [if_neg hzero, htext]
    exact ⟨(shortest (word x)).spread, Decimal.positional_positional _,
      nearest_shortest (Nat.pos_of_ne_zero hzero) hword.le⟩

/-- The text of a finite number without a sign is read back as the number. -/
theorem read?_render (h : x.isFinite) (hsign : isNegative x = false) :
    read? (render x) = some x := by
  obtain ⟨d, hpositional, hnearest⟩ := exists_positional_render h hsign
  obtain ⟨c, rest, hcs, hc⟩ := hpositional.exists_cons
  have hread : Numeral.read? (render x).toList = some (.finite false d) := by
    rw [hcs, Numeral.read?_of_isDigit hc, ← hcs, hpositional.read?, Option.map_some]
  rw [Number.read?, hread, Option.map_some, Numeral.toFloat, hnearest, ← hsign, ofWord_word]

end InfixCalc.Number

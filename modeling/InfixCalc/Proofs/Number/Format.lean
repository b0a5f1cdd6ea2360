import InfixCalc.Number.Format
import Mathlib.Tactic.Linarith
import Mathlib.Tactic.Ring
import Mathlib.Data.Nat.Log

/-!
# Rounding to a binary format

A code word stands for the values that lie nearest to its magnitude. They are an interval, which
ends half a step of the word's exponent above the magnitude and half a step below it, but only a
quarter of one below the least significand of an exponent. A value at an end belongs to the word
whose significand is even. `Format.nearest` gives every value in the interval its code word.
-/

namespace InfixCalc.Number

/-- A quotient is rounded to a whole number that is at most one half away, and just so far only if
that number is even. -/
lemma divHalfEven_eq {n d q : Nat} (hlow : 2 * (q * d) ≤ 2 * n + d)
    (hhigh : 2 * n ≤ 2 * (q * d) + d)
    (heven : q % 2 = 1 → 2 * (q * d) < 2 * n + d ∧ 2 * n < 2 * (q * d) + d) (hd : 0 < d) :
    divHalfEven n d = q := by
  have hn : n / d * d + n % d = n := Nat.div_add_mod' n d
  have hrest : n % d < d := Nat.mod_lt n hd
  have hle : n / d ≤ q := by
    by_contra! hlt
    have := Nat.mul_le_mul_right d hlt
    rw [Nat.succ_mul] at this
    omega
  have hge : q ≤ n / d + 1 := by
    by_contra! hlt
    have := Nat.mul_le_mul_right d hlt
    rw [Nat.succ_mul, Nat.succ_mul] at this
    omega
  simp only [divHalfEven]
  generalize n / d = m at *
  obtain rfl | rfl : q = m ∨ q = m + 1 := by omega
  · split_ifs <;> omega
  · have hq : (m + 1) * d = m * d + d := Nat.succ_mul m d
    split_ifs <;> omega

lemma divHalfEven_mul_right {k : Nat} (n d : Nat) (hk : 0 < k) :
    divHalfEven (n * k) (d * k) = divHalfEven n d := by
  simp only [divHalfEven, Nat.mul_div_mul_right n d hk, Nat.mul_mod_mul_right k n d,
    ← Nat.mul_assoc 2, Nat.mul_lt_mul_right hk]

namespace Format

variable {f : Format} {num den w : Nat}

/-! ### Code words -/

lemma binade_eq (f : Format) : f.binade = 2 ^ (f.precision - 1) := Nat.one_shiftLeft _

lemma binade_pos (f : Format) : 0 < f.binade := by
  rw [binade_eq]
  exact Nat.two_pow_pos _

lemma significand_of_lt (h : w < f.binade) : f.significand w = w ∧ f.exponent w = 0 := by
  simp [significand, exponent, h, Nat.div_eq_of_lt h]

lemma significand_of_le (h : f.binade ≤ w) :
    f.significand w = f.binade + w % f.binade ∧ f.exponent w + 1 = w / f.binade := by
  have hdiv : 1 ≤ w / f.binade := (Nat.one_le_div_iff f.binade_pos).mpr h
  simp [significand, exponent, Nat.not_lt.mpr h, Nat.sub_add_cancel hdiv]

lemma exponent_mul_add_significand (f : Format) (w : Nat) :
    f.exponent w * f.binade + f.significand w = w := by
  rcases Nat.lt_or_ge w f.binade with h | h
  · obtain ⟨hsignificand, hexponent⟩ := significand_of_lt h
    rw [hsignificand, hexponent, Nat.zero_mul, Nat.zero_add]
  · obtain ⟨hsignificand, hexponent⟩ := significand_of_le h
    rw [hsignificand, ← Nat.add_assoc, ← Nat.succ_mul, Nat.succ_eq_add_one, hexponent,
      Nat.div_add_mod']

lemma significand_lt (f : Format) (w : Nat) : f.significand w < 2 * f.binade := by
  have hpos := f.binade_pos
  rcases Nat.lt_or_ge w f.binade with h | h
  · rw [(significand_of_lt h).1]
    omega
  · have := Nat.mod_lt w hpos
    rw [(significand_of_le h).1]
    omega

lemma binade_le_significand (h : f.exponent w ≠ 0) : f.binade ≤ f.significand w := by
  rcases Nat.lt_or_ge w f.binade with hlt | hge
  · exact absurd (significand_of_lt hlt).2 h
  · rw [(significand_of_le hge).1]
    exact Nat.le_add_right _ _

lemma significand_pos (h : 0 < w) : 0 < f.significand w := by
  have := f.binade_pos
  rcases Nat.lt_or_ge w f.binade with hlt | hge
  · rwa [(significand_of_lt hlt).1]
  · rw [(significand_of_le hge).1]
    omega

/-! ### Rounding -/

lemma nearest_mul_right {k : Nat} (f : Format) (num den : Nat) (hk : 0 < k) :
    f.nearest (num * k) (den * k) = f.nearest num den := by
  have hshift (e : Nat) : (den * k) <<< e = den <<< e * k := by
    rw [Nat.shiftLeft_eq, Nat.shiftLeft_eq, Nat.mul_right_comm]
  simp only [nearest, Nat.mul_div_mul_right num den hk, hshift, divHalfEven_mul_right _ _ hk]

/-- Only the value of a fraction counts. -/
lemma nearest_congr {num' den' : Nat} (f : Format) (hden : 0 < den) (hden' : 0 < den')
    (h : num * den' = num' * den) : f.nearest num den = f.nearest num' den' := by
  rw [← nearest_mul_right f num den hden', h, Nat.mul_comm den, nearest_mul_right f num' den' hden]

/-- Whether a code word is the one nearest to `num / den` units. The step below the least
significand of an exponent is half as wide. -/
structure Rounds (f : Format) (num den w : Nat) : Prop where
  low : 2 * (f.significand w * (den <<< f.exponent w)) ≤ 2 * num + den <<< f.exponent w
  narrow : f.significand w = f.binade → f.exponent w ≠ 0 →
    4 * (f.significand w * (den <<< f.exponent w)) ≤ 4 * num + den <<< f.exponent w
  high : 2 * num ≤ 2 * (f.significand w * (den <<< f.exponent w)) + den <<< f.exponent w
  open_of_odd : f.significand w % 2 = 1 →
    2 * (f.significand w * (den <<< f.exponent w)) < 2 * num + den <<< f.exponent w ∧
      2 * num < 2 * (f.significand w * (den <<< f.exponent w)) + den <<< f.exponent w

/-- The significand in the binade of a quotient determines its exponent. -/
lemma nearest_of_exponent {s e : Nat} (hf : 1 ≤ f.precision) (hden : 0 < den)
    (hlow : f.binade * (den <<< e) ≤ num ∨ e = 0) (hhigh : num < 2 * (f.binade * (den <<< e)))
    (hs : divHalfEven num (den <<< e) = s) (hfinite : e * f.binade + s ≤ f.infinity) :
    f.nearest num den = e * f.binade + s := by
  have hdouble : 2 * f.binade = 2 ^ f.precision := by
    rw [binade_eq, ← Nat.pow_succ', Nat.succ_eq_add_one, Nat.sub_add_cancel hf]
  have hlt : num / den < 2 ^ (f.precision + e) := by
    rw [Nat.div_lt_iff_lt_mul hden, Nat.pow_add, ← hdouble]
    rw [Nat.shiftLeft_eq] at hhigh
    linarith
  have hshift : (num / den).log2 + 1 - f.precision = e := by
    rcases hlow with hlow | rfl
    · have hle : 2 ^ (f.precision - 1 + e) ≤ num / den := by
        rw [Nat.le_div_iff_mul_le hden, Nat.pow_add, ← binade_eq]
        rw [Nat.shiftLeft_eq] at hlow
        linarith
      have hlog : (num / den).log2 = f.precision - 1 + e := by
        rw [Nat.log2_eq_iff (Nat.two_pow_pos _ |>.trans_le hle).ne']
        refine ⟨hle, ?_⟩
        rwa [Nat.add_right_comm, Nat.sub_add_cancel hf]
      omega
    · have hlog : (num / den).log2 < f.precision := by
        rcases Nat.eq_zero_or_pos (num / den) with hzero | hpos
        · rw [hzero]
          exact hf
        · exact (Nat.log2_lt hpos.ne').mpr hlt
      omega
  rw [nearest, hshift, hs, Nat.min_eq_left hfinite]

/-- Just below the least significand of an exponent the steps are those of the exponent before. -/
lemma nearest_of_narrow {e : Nat} (hf : 1 ≤ f.precision) (hden : 0 < den)
    (hlow : 4 * (f.binade * (den <<< (e + 1))) ≤ 4 * num + den <<< (e + 1))
    (hhigh : num < f.binade * (den <<< (e + 1))) (hfinite : (e + 2) * f.binade ≤ f.infinity) :
    f.nearest num den = (e + 2) * f.binade := by
  have hdouble : den <<< (e + 1) = 2 * (den <<< e) := by
    rw [Nat.shiftLeft_eq, Nat.shiftLeft_eq, Nat.pow_succ]
    ring
  have hstep : 0 < den <<< e := by
    rw [Nat.shiftLeft_eq]
    positivity
  have hbinade : den <<< e ≤ f.binade * (den <<< e) := Nat.le_mul_of_pos_left _ f.binade_pos
  rw [hdouble, Nat.mul_left_comm f.binade] at hlow hhigh
  have hround : divHalfEven num (den <<< e) = 2 * f.binade := by
    refine divHalfEven_eq ?_ ?_ (by omega) hstep <;> rw [Nat.mul_assoc] <;> omega
  rw [Nat.add_mul] at hfinite ⊢
  exact nearest_of_exponent hf hden (.inl (by omega)) hhigh hround hfinite

/-- Every value is rounded to the code word in whose interval it lies. -/
theorem nearest_of_rounds (hf : 1 ≤ f.precision) (hden : 0 < den) (hw : w ≤ f.infinity)
    (h : f.Rounds num den w) : f.nearest num den = w := by
  have hsum := f.exponent_mul_add_significand w
  have hsignificand := f.significand_lt w
  have hnormal := binade_le_significand (f := f) (w := w)
  obtain ⟨hlow, hnarrow, hhigh, hopen⟩ := h
  generalize f.significand w = s at *
  generalize f.exponent w = e at *
  have hstep : 0 < den <<< e := by
    rw [Nat.shiftLeft_eq]
    positivity
  have hbelow : num < 2 * (f.binade * (den <<< e)) := by
    have := Nat.mul_le_mul_right (den <<< e) (Nat.succ_le_of_lt hsignificand)
    rw [Nat.succ_mul, Nat.mul_assoc] at this
    omega
  by_cases hle : f.binade * (den <<< e) ≤ num ∨ e = 0
  · rw [nearest_of_exponent hf hden hle hbelow (divHalfEven_eq hlow hhigh hopen hstep)
      (by omega), hsum]
  · rw [not_or, Nat.not_le] at hle
    obtain ⟨hless, hne⟩ := hle
    have hs : s = f.binade := by
      refine Nat.le_antisymm ?_ (hnormal hne)
      by_contra! hlt
      have := Nat.mul_le_mul_right (den <<< e) (Nat.succ_le_of_lt hlt)
      rw [Nat.succ_mul] at this
      omega
    obtain ⟨e, rfl⟩ := Nat.exists_eq_succ_of_ne_zero hne
    have hword : w = (e + 2) * f.binade := by
      rw [← hsum, hs, Nat.succ_mul, Nat.add_mul]
      omega
    have hlow' := hnarrow hs hne
    rw [hs] at hlow'
    rw [hword] at hw ⊢
    exact nearest_of_narrow hf hden hlow' hless hw

end Format

end InfixCalc.Number

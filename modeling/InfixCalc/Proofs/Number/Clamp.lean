import InfixCalc.Number.Arithmetic
import InfixCalc.Proofs.Number.Order

/-!
# Clamping

A number that is clamped lies between the bounds, and stays what it is when it is clamped again. The
order of the bounds makes no difference as long as both are numbers, or none. NaN sets no limit, but
beside a NaN the other bound keeps to its place: if it is the first one the result is not less than
it, and if it is the second one the result is not greater.
-/

namespace InfixCalc.Number

/-- Whether a number lies between two bounds in either order, or is one of them. -/
def Between (lo hi x : Float) : Prop := lo ≤ x ∧ x ≤ hi ∨ hi ≤ x ∧ x ≤ lo

variable {x lo hi : Float}

lemma Between.of_not_gt (h : Between lo hi x) (hgt : ¬ lo > hi) : lo ≤ x ∧ x ≤ hi := by
  rcases h with h | ⟨hhi, hlo⟩
  · exact h
  · have hle := le_of_not_lt (le_iff.mp hlo).2.1 (le_iff.mp hhi).1 hgt
    exact ⟨le_trans hle hhi, le_trans hlo hle⟩

/-! ### Bounds in either order -/

lemma clamp_of_not_gt (h : ¬ lo > hi) :
    clamp x lo hi = if x < lo then lo else if x > hi then hi else x := by
  rw [clamp, if_neg h, if_neg h]

lemma clamp_of_gt (h : lo > hi) : clamp x lo hi = clamp x hi lo := by
  rw [clamp_of_not_gt (lt_asymm h), clamp, if_pos h, if_pos h]

lemma clamp_clamp_of_not_gt (h : ¬ lo > hi) : clamp (clamp x lo hi) lo hi = clamp x lo hi := by
  simp only [clamp_of_not_gt h]
  by_cases hlo : x < lo
  · rw [if_pos hlo, if_neg (lt_irrefl lo), if_neg h]
  · by_cases hhi : x > hi
    · rw [if_neg hlo, if_pos hhi, if_neg h, if_neg (lt_irrefl hi)]
    · rw [if_neg hlo, if_neg hhi, if_neg hlo, if_neg hhi]

/-- A number that has been clamped is not changed by the same bounds, whatever they are. -/
theorem clamp_clamp : clamp (clamp x lo hi) lo hi = clamp x lo hi := by
  by_cases h : lo > hi
  · rw [clamp_of_gt h, clamp_of_gt h, clamp_clamp_of_not_gt (lt_asymm h)]
  · exact clamp_clamp_of_not_gt h

theorem clamp_of_between (h : Between lo hi x) : clamp x lo hi = x := by
  by_cases hgt : lo > hi
  · obtain ⟨hhi, hlo⟩ := Between.of_not_gt h.symm (lt_asymm hgt)
    rw [clamp_of_gt hgt, clamp_of_not_gt (lt_asymm hgt), if_neg (not_lt_of_le hhi),
      if_neg (not_lt_of_le hlo)]
  · obtain ⟨hlo, hhi⟩ := h.of_not_gt hgt
    rw [clamp_of_not_gt hgt, if_neg (not_lt_of_le hlo), if_neg (not_lt_of_le hhi)]

lemma le_clamp_of_not_gt (hx : x.isNaN = false) (hlo : lo.isNaN = false) (hhi : hi.isNaN = false)
    (h : ¬ lo > hi) : lo ≤ clamp x lo hi ∧ clamp x lo hi ≤ hi := by
  have hle := le_of_not_lt hlo hhi h
  rw [clamp_of_not_gt h]
  split_ifs with hbelow habove
  · exact ⟨le_of_not_lt hlo hlo (lt_irrefl lo), hle⟩
  · exact ⟨hle, le_of_not_lt hhi hhi (lt_irrefl hi)⟩
  · exact ⟨le_of_not_lt hlo hx hbelow, le_of_not_lt hx hhi habove⟩

theorem between_clamp (hx : x.isNaN = false) (hlo : lo.isNaN = false) (hhi : hi.isNaN = false) :
    Between lo hi (clamp x lo hi) := by
  by_cases h : lo > hi
  · rw [clamp_of_gt h]
    exact .inr (le_clamp_of_not_gt hx hhi hlo (lt_asymm h))
  · exact .inl (le_clamp_of_not_gt hx hlo hhi h)

/-! ### Exchanged bounds -/

lemma clamp_of_isNaN_left (h : lo.isNaN) : clamp x lo hi = if x > hi then hi else x := by
  rw [clamp_of_not_gt (not_lt_of_isNaN h hi).2, if_neg (not_lt_of_isNaN h x).2]

lemma clamp_of_isNaN_right (h : hi.isNaN) : clamp x lo hi = if x < lo then lo else x := by
  rw [clamp_of_not_gt (not_lt_of_isNaN h lo).1, if_neg (not_lt_of_isNaN h x).1]

/-- The order of bounds does not matter if none is NaN. -/
lemma same_clamp_swap (hlo : lo.isNaN = false) (hhi : hi.isNaN = false) :
    Same (clamp x lo hi) (clamp x hi lo) := by
  by_cases hgt : lo > hi
  · rw [clamp_of_gt hgt]
    exact same_refl _
  by_cases hlt : hi > lo
  · rw [clamp_of_gt hlt]
    exact same_refl _
  -- The bounds are equal, though they may be zeros of both signs.
  have hrank := rank_eq_of_not_lt hlo hhi hlt hgt
  rw [clamp_of_not_gt hgt, clamp_of_not_gt hlt]
  simp only [gt_iff_lt, lt_iff, hlo, hhi, hrank, true_and]
  split_ifs
  · exact same_iff.mpr ⟨hlo.trans hhi.symm, fun _ => hrank⟩
  · exact same_iff.mpr ⟨hhi.trans hlo.symm, fun _ => hrank.symm⟩
  · exact same_refl x

/-- A single bound that is NaN makes the other one an upper or a lower limit, depending on its
place. That is the same only to numbers that are equal to it, and to NaN. -/
lemma same_clamp_swap_of_isNaN (hlo : lo.isNaN) (hhi : hi.isNaN = false) :
    Same (clamp x lo hi) (clamp x hi lo) ↔ x.isNaN ∨ x == hi := by
  rw [clamp_of_isNaN_left hlo, clamp_of_isNaN_right hlo]
  cases hx : x.isNaN with
  | true =>
    rw [if_neg (not_lt_of_isNaN hx hi).2, if_neg (not_lt_of_isNaN hx hi).1]
    exact iff_of_true (same_refl x) (.inl rfl)
  | false =>
    rw [or_iff_right Bool.false_ne_true]
    by_cases hgt : x > hi
    · rw [if_pos hgt, if_neg (lt_asymm hgt), same_comm, same_iff_beq hhi]
    · by_cases hlt : x < hi
      · rw [if_neg hgt, if_pos hlt, same_iff_beq hhi]
      · rw [if_neg hgt, if_neg hlt]
        exact iff_of_true (same_refl x)
          (beq_iff.mpr ⟨hx, hhi, rank_eq_of_not_lt hx hhi hlt hgt⟩)

/-- Exchanged bounds make a difference just if one of them is NaN and the other one is not, unless
the number is NaN or equal to the other one. -/
theorem same_clamp_swap_iff :
    Same (clamp x lo hi) (clamp x hi lo) ↔
      lo.isNaN = hi.isNaN ∨ x.isNaN ∨ x == lo ∨ x == hi := by
  cases hlo : lo.isNaN with
  | true =>
    cases hhi : hi.isNaN with
    | true =>
      rw [isNaN_iff_eq_nan.mp hlo, isNaN_iff_eq_nan.mp hhi]
      exact iff_of_true (same_refl _) (.inl rfl)
    | false =>
      rw [same_clamp_swap_of_isNaN hlo hhi, or_iff_right (not_beq_of_isNaN hlo),
        or_iff_right Bool.true_eq_false.mp]
  | false =>
    cases hhi : hi.isNaN with
    | true =>
      rw [same_comm, same_clamp_swap_of_isNaN hhi hlo, or_iff_left (not_beq_of_isNaN hhi),
        or_iff_right Bool.false_ne_true]
    | false => exact iff_of_true (same_clamp_swap hlo hhi) (.inl rfl)

end InfixCalc.Number

import InfixCalc.Number.Arithmetic
import InfixCalc.Proofs.Number.Order

/-!
# The best of a list of numbers

The largest number of a list is found by keeping the better of two numbers again and again, where
numbers are compared by their ranks, and so is the smallest one by the negatives of the ranks. NaN
is below all others. Keeping the better one is associative, and NaN is its identity, so that it does
not matter how a list is grouped, and the order of a list only decides between zeros.
-/

namespace InfixCalc.Number

variable {key : Float → Int} {x y z : Float} {xs ys : List Float}

/-! ### Levels -/

/-- The key of a number, where NaN is below all others. -/
def level (key : Float → Int) (x : Float) : WithBot Int := if x.isNaN then ⊥ else key x

lemma level_of_isNaN (h : x.isNaN) : level key x = ⊥ := if_pos h

lemma level_of_not_isNaN (h : x.isNaN = false) : level key x = key x :=
  if_neg (Bool.eq_false_iff.mp h)

lemma level_eq_bot_iff : level key x = ⊥ ↔ x.isNaN := by
  cases h : x.isNaN with
  | true => exact iff_of_true (level_of_isNaN h) rfl
  | false => simp only [level_of_not_isNaN h, WithBot.coe_ne_bot, Bool.false_eq_true]

lemma level_lt_level_iff (hx : x.isNaN = false) :
    level key x < level key y ↔ y.isNaN = false ∧ key x < key y := by
  rw [level_of_not_isNaN hx]
  cases hy : y.isNaN with
  | true => simp only [level_of_isNaN hy, not_lt_bot, Bool.true_eq_false, false_and]
  | false => simp only [level_of_not_isNaN hy, WithBot.coe_lt_coe, true_and]

@[simp] lemma level_nan : level key nan = ⊥ := level_of_isNaN (isNaN_iff_eq_nan.mpr rfl)

lemma eq_nan_of_level_eq_bot (h : level key x = ⊥) : x = nan :=
  isNaN_iff_eq_nan.mp (level_eq_bot_iff.mp h)

/-! ### The better of two numbers -/

/-- The number of the greater key, or the first one where both keys are the same. Beside a NaN it is
the other one. -/
def better (key : Float → Int) (x y : Float) : Float :=
  if x.isNaN ∨ y.isNaN = false ∧ key x < key y then y else x

lemma better_eq_ite : better key x y = if level key x < level key y then y else x := by
  unfold better
  cases hx : x.isNaN with
  | true =>
    rw [if_pos (.inl rfl), level_of_isNaN hx]
    split_ifs with h
    · rfl
    · rw [isNaN_iff_eq_nan.mp hx, eq_nan_of_level_eq_bot (not_bot_lt_iff.mp h)]
  | false =>
    refine if_congr ?_ rfl rfl
    rw [level_lt_level_iff hx, or_iff_right Bool.false_ne_true]

@[simp] lemma better_nan_left : better key nan x = x := if_pos (.inl (isNaN_iff_eq_nan.mpr rfl))

@[simp] lemma better_nan_right : better key x nan = x := by
  rw [better_eq_ite, level_nan, if_neg not_lt_bot]

lemma better_eq_or : better key x y = x ∨ better key x y = y := (ite_eq_or_eq ..).symm

lemma level_better : level key (better key x y) = level key x ⊔ level key y := by
  rw [better_eq_ite]
  split_ifs with h
  · exact (max_eq_right_of_lt h).symm
  · exact (max_eq_left (not_lt.mp h)).symm

instance : Std.Associative (better key) where
  assoc x y z := by
    simp only [better_eq_ite]
    rcases lt_or_ge (level key x) (level key y) with hxy | hyx
    · rcases lt_or_ge (level key y) (level key z) with hyz | hzy
      · rw [if_pos hxy, if_pos hyz, if_pos (hxy.trans hyz)]
      · rw [if_pos hxy, if_neg hzy.not_gt, if_pos hxy]
    · rcases lt_or_ge (level key y) (level key z) with hyz | hzy
      · rw [if_neg hyx.not_gt, if_pos hyz]
      · rw [if_neg hyx.not_gt, if_neg hzy.not_gt, if_neg hyx.not_gt, if_neg (hzy.trans hyx).not_gt]

/-! ### The best of a list -/

/-- The first number of a list with the greatest level. -/
def best (key : Float → Int) (xs : List Float) : Float := xs.foldl (better key) nan

@[simp] lemma best_nil : best key [] = nan := rfl

@[simp] lemma best_cons : best key (x :: xs) = better key x (best key xs) := by
  rw [best, List.foldl_cons, better_nan_left, best, ← @List.foldl_assoc _ (better key),
    better_nan_right]

@[simp] lemma best_append : best key (xs ++ ys) = better key (best key xs) (best key ys) := by
  rw [best, List.foldl_append, best, best, ← @List.foldl_assoc _ (better key), better_nan_right]

lemma best_mem (h : xs ≠ []) : best key xs ∈ xs := by
  induction xs with
  | nil => exact absurd rfl h
  | cons x xs ih =>
    rw [best_cons]
    cases xs with
    | nil => simp
    | cons y ys =>
      rcases better_eq_or with heq | heq <;> rw [heq]
      · exact List.mem_cons_self
      · exact List.mem_cons_of_mem _ (ih (List.cons_ne_nil y ys))

lemma level_le_level_best (h : x ∈ xs) : level key x ≤ level key (best key xs) := by
  induction xs with
  | nil => cases h
  | cons y ys ih =>
    rw [best_cons, level_better]
    rcases List.mem_cons.mp h with rfl | h
    · exact le_sup_left
    · exact (ih h).trans le_sup_right

lemma level_best_eq_of_perm (h : xs.Perm ys) :
    level key (best key xs) = level key (best key ys) := by
  induction h with
  | nil => rfl
  | cons x _ ih => rw [best_cons, best_cons, level_better, level_better, ih]
  | swap x y l =>
    rw [best_cons, best_cons, best_cons, best_cons, level_better, level_better, level_better,
      level_better, sup_left_comm]
  | trans _ _ ih₁ ih₂ => exact ih₁.trans ih₂

lemma isNaN_best_iff (h : xs ≠ []) : (best key xs).isNaN ↔ ∀ x ∈ xs, x.isNaN := by
  refine ⟨fun hbest x hx => ?_, fun hall => hall _ (best_mem h)⟩
  have hle : level key x ≤ level key (best key xs) := level_le_level_best hx
  rw [level_of_isNaN hbest, le_bot_iff, level_eq_bot_iff] at hle
  exact hle

lemma key_le_key_best (hx : x ∈ xs) (h : x.isNaN = false) :
    (best key xs).isNaN = false ∧ key x ≤ key (best key xs) := by
  have hle : level key x ≤ level key (best key xs) := level_le_level_best hx
  rw [level_of_not_isNaN h] at hle
  cases hbest : (best key xs).isNaN with
  | true =>
    rw [level_of_isNaN hbest] at hle
    exact absurd hle (WithBot.not_coe_le_bot _)
  | false =>
    rw [level_of_not_isNaN hbest] at hle
    exact ⟨rfl, WithBot.coe_le_coe.mp hle⟩

lemma same_of_level_eq (hrank : ∀ x y, key x = key y → rank x = rank y)
    (h : level key x = level key y) : Same x y := by
  cases hx : x.isNaN with
  | true =>
    rw [level_of_isNaN hx, eq_comm, level_eq_bot_iff] at h
    exact .inr ⟨hx, h⟩
  | false =>
    cases hy : y.isNaN with
    | true =>
      rw [level_of_isNaN hy, level_eq_bot_iff, hx] at h
      exact absurd h Bool.false_ne_true
    | false =>
      rw [level_of_not_isNaN hx, level_of_not_isNaN hy, WithBot.coe_inj] at h
      exact .inl (beq_iff.mpr ⟨hx, hy, hrank x y h⟩)

/-! ### Maximum and minimum -/

lemma larger_eq_better : larger x y = better rank x y := by
  unfold larger better
  cases hx : x.isNaN with
  | true => rw [if_pos rfl, if_pos (.inl rfl)]
  | false => simp only [gt_iff_lt, lt_iff, hx, true_and, Bool.false_eq_true, if_false, false_or]

lemma smaller_eq_better : smaller x y = better (-rank ·) x y := by
  unfold smaller better
  cases hx : x.isNaN with
  | true => rw [if_pos rfl, if_pos (.inl rfl)]
  | false =>
    simp only [lt_iff, hx, true_and, Bool.false_eq_true, if_false, false_or, neg_lt_neg_iff]

lemma maximum_eq_best : maximum xs = best rank xs := by
  have hlarger : larger = better rank := by
    funext x y
    exact larger_eq_better
  rw [maximum, hlarger, best]

lemma minimum_eq_best : minimum xs = best (-rank ·) xs := by
  have hsmaller : smaller = better (-rank ·) := by
    funext x y
    exact smaller_eq_better
  rw [minimum, hsmaller, best]

end InfixCalc.Number

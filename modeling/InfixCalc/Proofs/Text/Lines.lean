import InfixCalc.Text.Blank
import Mathlib.Data.List.DropRight

/-!
# Lines and blanks of a text

A text is cut at its line feeds, so that the lines of two texts with a line feed between them are
those of the one and then those of the other. A text consists of the blanks at both of its ends and
of what is left without them.
-/

namespace InfixCalc.Text

variable {cs : List Char}

/-- The lines of a text are what stands between its line feeds. -/
lemma lines_eq_splitOn (cs : List Char) : lines cs = cs.splitOn '\n' := by
  induction cs with
  | nil => rfl
  | cons c cs ih =>
    simp only [lines, ih, List.splitOn, List.splitOnP_cons_eq_if_modifyHead, beq_iff_eq]
    by_cases hc : c = '\n'
    · rw [if_pos hc, if_pos hc]
    · rw [if_neg hc, if_neg hc]
      cases hsplit : cs.splitOnP (· == '\n') with
      | nil => exact absurd hsplit (List.splitOnP_ne_nil _ _)
      | cons line rest => rfl

lemma lines_append (xs ys : List Char) : lines (xs ++ '\n' :: ys) = lines xs ++ lines ys := by
  simp only [lines_eq_splitOn, List.splitOn]
  exact List.splitOnP_append_cons xs ys rfl

lemma lines_of_not_mem (h : '\n' ∉ cs) : lines cs = [cs] := by
  rw [lines_eq_splitOn, List.splitOn_eq_singleton h]

/-! ### Blanks -/

lemma trim_eq_rdropWhile (cs : List Char) :
    trim cs = (cs.dropWhile isBlank).rdropWhile isBlank := rfl

/-- A text is put together from what is left of it without the blanks at its ends, and these. -/
lemma exists_eq_append_trim (cs : List Char) :
    ∃ front back, cs = front ++ (trim cs ++ back) ∧ (∀ c ∈ front, isBlank c) ∧
      ∀ c ∈ back, isBlank c := by
  refine ⟨cs.takeWhile isBlank, (cs.dropWhile isBlank).rtakeWhile isBlank, ?_,
    fun c => List.mem_takeWhile_imp, fun c => List.mem_rtakeWhile_imp⟩
  rw [trim_eq_rdropWhile, List.rdropWhile_append_rtakeWhile, List.takeWhile_append_dropWhile]

lemma trim_eq_nil (h : ∀ c ∈ cs, isBlank c) : trim cs = [] := by
  rw [trim_eq_rdropWhile, List.dropWhile_eq_nil_iff.mpr h, List.rdropWhile_nil]

/-- Nothing is trimmed from a text that does not start or end with a blank. -/
lemma trim_eq_self (hhead : ∀ c ∈ cs.head?, isBlank c = false)
    (hlast : ∀ c ∈ cs.getLast?, isBlank c = false) : trim cs = cs := by
  have hdrop : cs.dropWhile isBlank = cs := by
    cases cs with
    | nil => rfl
    | cons c cs => exact List.dropWhile_cons_of_neg (by simp [hhead c rfl])
  rw [trim_eq_rdropWhile, hdrop, List.rdropWhile_eq_self_iff]
  intro hne
  simp [hlast _ (List.getLast?_eq_some_getLast hne)]

end InfixCalc.Text

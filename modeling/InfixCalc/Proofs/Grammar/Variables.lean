import InfixCalc.Proofs.Grammar.Names
import InfixCalc.Proofs.Lexeme.Segments

/-!
# Variables of a statement

The free variables of a program are told by the text of its statement: they are the segments that
are no numbers and have no reserved name, each of them once, in the order in which they first appear
in the text.
-/

namespace InfixCalc

/-! ### Order of appearance -/

section Order

variable {α : Type*} [DecidableEq α] {a b : α} {l : List α}

lemma idxOf_lt_idxOf_of_filter {q : α → Bool} (ha : q a) (hb : q b)
    (h : (l.filter q).idxOf a < (l.filter q).idxOf b) : l.idxOf a < l.idxOf b := by
  induction l with
  | nil => exact h
  | cons c l ih =>
    by_cases hc : q c
    · rw [List.filter_cons_of_pos hc, List.idxOf_cons, List.idxOf_cons] at h
      rw [List.idxOf_cons, List.idxOf_cons]
      cases hca : c == a <;> cases hcb : c == b <;> rw [hca, hcb] at h
      · exact Nat.succ_lt_succ (ih (Nat.lt_of_succ_lt_succ h))
      · exact absurd h (Nat.not_lt_zero _)
      · exact Nat.succ_pos _
      · exact absurd h (Nat.not_lt_zero _)
    · have hca : c ≠ a := by
        rintro rfl
        exact hc ha
      have hcb : c ≠ b := by
        rintro rfl
        exact hc hb
      rw [List.filter_cons_of_neg hc] at h
      rw [List.idxOf_cons_ne l hca, List.idxOf_cons_ne l hcb]
      exact Nat.succ_lt_succ (ih h)

/-- When repetitions are erased, what is left stands in the order of first appearance. -/
theorem pairwise_idxOf_eraseDups (l : List α) :
    l.eraseDups.Pairwise fun a b => l.idxOf a < l.idxOf b := by
  match l with
  | [] => exact .nil
  | c :: l =>
    have hrest := pairwise_idxOf_eraseDups (l.filter fun b => !b == c)
    rw [List.eraseDups_cons]
    have hne {a : α} (ha : a ∈ (l.filter fun b => !b == c).eraseDups) : a ≠ c := by
      rw [List.mem_eraseDups, List.mem_filter] at ha
      simpa using ha.2
    refine .cons ?_ (hrest.imp_of_mem ?_)
    · intro a ha
      rw [List.idxOf_cons_self, List.idxOf_cons_ne l (hne ha).symm]
      exact Nat.succ_pos _
    · intro a b ha hb h
      rw [List.idxOf_cons_ne l (hne ha).symm, List.idxOf_cons_ne l (hne hb).symm]
      exact Nat.succ_lt_succ (idxOf_lt_idxOf_of_filter (by simpa using hne ha)
        (by simpa using hne hb) h)
termination_by l.length
decreasing_by exact Nat.lt_succ_of_le (List.length_filter_le _ _)

end Order

/-! ### Segments that are variables -/

/-- Whether a segment is a variable. -/
def isVariable (text : String) : Bool := !Word.startsWithDigit text && !isReserved text

lemma Constant.ofName?_eq_none_iff {name : String} :
    ofName? name = none ↔ name ∉ ["E", "PI", "rand"] := by
  constructor
  · intro h hmem
    have hname : name ∈ all.map Constant.name := hmem
    obtain ⟨c, -, rfl⟩ := List.mem_map.mp hname
    rw [ofName?_name] at h
    cases h
  · intro h
    rw [Option.eq_none_iff_forall_ne_some]
    intro c hc
    obtain rfl := ofName?_eq_some_iff.mp hc
    exact h (List.mem_map_of_mem (mem_all c))

lemma isReserved_eq_false_iff {name : String} :
    isReserved name = false ↔ (∀ f : Builtin, name ≠ f.name) ∧ name ∉ ["E", "PI", "rand"] := by
  have hfunction : Builtin.ofName? name = none ↔ ∀ f : Builtin, name ≠ f.name := by
    simp [Option.eq_none_iff_forall_ne_some, Builtin.ofName?_eq_some_iff]
  rw [isReserved, Bool.or_eq_false_iff, Option.isSome_eq_false_iff, Option.isSome_eq_false_iff,
    Option.isNone_iff_eq_none, Option.isNone_iff_eq_none, hfunction, Constant.ofName?_eq_none_iff]

lemma isVariable_iff {text : String} : isVariable text ↔
    Word.startsWithDigit text = false ∧ (∀ f : Builtin, text ≠ f.name) ∧
      text ∉ ["E", "PI", "rand"] := by
  rw [isVariable, Bool.and_eq_true, Bool.not_eq_true', Bool.not_eq_true', isReserved_eq_false_iff]

/-- The free names that tokens mention are the variables among their segments. -/
lemma filter_isFree_names (ts : List Token) :
    (ts.filterMap Token.name?).filter isFree = (ts.filterMap Token.segment?).filter isVariable := by
  rw [List.filter_filterMap, List.filter_filterMap]
  apply List.filterMap_congr
  intro t _
  cases t with
  | segment text =>
    rw [Token.name?, Token.segment?, Option.filter_some, isVariable, isReserved]
    cases Word.startsWithDigit text <;> cases Builtin.ofName? text <;>
      cases hconstant : Constant.ofName? text <;> simp [isFree, hconstant]
  | _ => rfl

variable {statement : String} {p : Program}

/-- The free variables of a program are just the segments of its statement that are neither numbers
nor reserved, without repetition and in the order of their first appearance. -/
theorem freeVariables_of_parse (h : parse statement = .ok p) :
    p.freeVariables = ((segments statement).filter isVariable).eraseDups ∧
      p.freeVariables.Nodup ∧
      (∀ name, name ∈ p.freeVariables ↔ name ∈ segments statement ∧
        Word.startsWithDigit name = false ∧ (∀ f : Builtin, name ≠ f.name) ∧
        name ∉ ["E", "PI", "rand"]) ∧
      p.freeVariables.Pairwise fun m n =>
        (segments statement).idxOf m < (segments statement).idxOf n := by
  obtain ⟨-, s, htokens, rfl⟩ := exists_program_of_parse h
  have heq : s.program.freeVariables = ((segments statement).filter isVariable).eraseDups := by
    rw [s.freeVariables_program, ← htokens, filter_isFree_names, filterMap_segment?_tokens]
  have hmem (name : String) : name ∈ s.program.freeVariables ↔
      name ∈ segments statement ∧ isVariable name := by
    rw [heq, List.mem_eraseDups, List.mem_filter]
  have horder : s.program.freeVariables.Pairwise fun m n =>
      (segments statement).idxOf m < (segments statement).idxOf n := by
    have hpairwise := pairwise_idxOf_eraseDups ((segments statement).filter isVariable)
    rw [← heq] at hpairwise
    refine hpairwise.imp_of_mem fun hm hn hlt => ?_
    exact idxOf_lt_idxOf_of_filter ((hmem _).mp hm).2 ((hmem _).mp hn).2 hlt
  refine ⟨heq, horder.imp ?_, fun name => ?_, horder⟩
  · rintro m n hlt rfl
    exact absurd hlt (Nat.lt_irrefl _)
  · rw [hmem, isVariable_iff]

/-- No function has the name of a constant. -/
lemma Builtin.ofName?_constant (c : Constant) : Builtin.ofName? c.name = none := by
  cases c <;> decide

lemma Number.read?_two : Number.read? "2" = some 2 := by decide +kernel

/-- The parse tree of `y ^ x - max(PI, 2 * y, z.1)`. -/
def Sentence.powerLessMax : Sentence :=
  let y : Operand := .variable "y" (.refl false) Builtin.ofName?_y
  let x : Operand := .variable "x" (.refl false) Builtin.ofName?_x
  let pi : Operand := .variable "PI" (.refl false) (Builtin.ofName?_constant .pi)
  let z : Operand := .variable "z.1" (by decide) (by decide)
  let two : Operand := .number "2" 2 (.refl true) Number.read?_two
  let arguments : Arguments 3 := .snoc (.snoc (.one (.plain (.operand pi)))
    (.plain (.join (.operand two) .mul y))) (.plain (.operand z))
  .phrase (.plain (.join (.join (.operand y) .pow x) .sub (.call .max 3 arguments (by decide))))

/-- The function, the constant and the number are no variables, and `y` is listed once. -/
theorem freeVariables_powerLessMax :
    parse "y ^ x - max(PI, 2 * y, z.1)" = .ok Sentence.powerLessMax.program ∧
      segments "y ^ x - max(PI, 2 * y, z.1)" = ["y", "x", "max", "PI", "2", "y", "z.1"] ∧
      Sentence.powerLessMax.program.freeVariables = ["y", "x", "z.1"] := by
  have hparse : parse "y ^ x - max(PI, 2 * y, z.1)" = .ok Sentence.powerLessMax.program :=
    parse_of_tokens (by decide +kernel) _ (by decide +kernel)
  have hsegments : segments "y ^ x - max(PI, 2 * y, z.1)"
      = ["y", "x", "max", "PI", "2", "y", "z.1"] := by
    decide +kernel
  refine ⟨hparse, hsegments, ?_⟩
  rw [(freeVariables_of_parse hparse).1, hsegments]
  decide

end InfixCalc

import InfixCalc.Proofs.Grammar.Tracking
import InfixCalc.Proofs.Number.Text

/-!
# Equality of programs

Two programs are compared number by number as numbers are compared, so that NaN would not be equal
to itself and zeros of both signs would be equal. But a program of a statement has no number that is
NaN or has a sign: a segment that is a number starts with a digit, and a sign in a statement is an
operator with a zero to its left. So equal programs of statements are the same.
-/

namespace InfixCalc

/-! ### Instructions of statements -/

/-- An instruction that can stand in the program of a statement. -/
inductive Instruction.Spelled : Instruction → Prop where
  /-- The left operand of a sign. -/
  | zero : Spelled (.number 0)
  | number {text : String} {value : Float} (digit : Word.startsWithDigit text)
      (read : Number.read? text = some value) : Spelled (.number value)
  | variable {name : String} (noDigit : Word.startsWithDigit name = false)
      (noFunction : Builtin.ofName? name = none) : Spelled (.variable name)
  | operator (op : Operator) : Spelled (.operator op)
  | call {f : Builtin} {n : Nat} (accepts : f.arity.accepts n) : Spelled (.call f n)

/-- Whether all instructions of a tree can stand in the program of a statement. -/
def Tree.Spelled (t : Tree) : Prop := ∀ i ∈ t.code, i.Spelled

lemma Run.spelled_sum {r : Run} (h : r.All Tree.Spelled) : r.sum.Spelled := by
  refine r.sum_of_all (fun op left right hleft hright => ?_) h
  rw [Tree.Spelled, Tree.code, List.forall_mem_append, List.forall_mem_append]
  exact ⟨⟨hleft, hright⟩, List.forall_mem_singleton.mpr (.operator op)⟩

mutual
lemma Phrase.spelled_tree : (p : Phrase) → p.tree.Spelled
  | .plain chain => Run.spelled_sum chain.spelled_run
  | .signed _ _ chain => Run.spelled_sum
      ⟨List.forall_mem_singleton.mpr .zero, List.forall_mem_cons.mpr chain.spelled_run⟩

lemma Chain.spelled_run : (chain : Chain) → chain.run.All Tree.Spelled
  | .operand last => ⟨last.spelled_tree, by simp [Chain.run]⟩
  | .join chain _ last => by
    obtain ⟨hfirst, hlinks⟩ := chain.spelled_run
    exact ⟨hfirst, List.forall_mem_append.mpr
      ⟨hlinks, List.forall_mem_singleton.mpr last.spelled_tree⟩⟩

lemma Operand.spelled_tree : (a : Operand) → a.tree.Spelled
  | .number _ _ digit read => List.forall_mem_singleton.mpr (.number digit read)
  | .variable _ noDigit noFunction =>
    List.forall_mem_singleton.mpr (.variable noDigit noFunction)
  | .group phrase => phrase.spelled_tree
  | .call _ _ arguments accepts => by
    rw [Operand.tree, Tree.Spelled, Tree.code, List.forall_mem_append, arguments.length_trees]
    exact ⟨arguments.spelled_trees, List.forall_mem_singleton.mpr (.call accepts)⟩

lemma Arguments.spelled_trees {n : Nat} :
    (arguments : Arguments n) → ∀ i ∈ Tree.codes arguments.trees, i.Spelled
  | .one phrase => by simpa [Arguments.trees, Tree.codes, Tree.Spelled] using phrase.spelled_tree
  | .snoc arguments phrase => by
    rw [Arguments.trees, Tree.codes_append, List.forall_mem_append]
    exact ⟨arguments.spelled_trees, by simpa [Tree.codes, Tree.Spelled] using phrase.spelled_tree⟩
end

variable {statement : String} {p q r : Program} {i j : Instruction} {x : Float}

lemma spelled_of_parse (h : parse statement = .ok p) : ∀ i ∈ p.code, i.Spelled := by
  obtain ⟨-, s, -, rfl⟩ := exists_program_of_parse h
  cases s with
  | blank => simp [Sentence.program, Program.empty]
  | phrase phrase => exact phrase.spelled_tree

/-! ### Comparing -/

namespace Instruction.Spelled

/-- A number in a program has no sign and is not NaN. -/
lemma unsigned (h : Spelled (.number x)) : x.isNaN = false ∧ Number.isNegative x = false := by
  cases h with
  | zero => decide
  | @number text _ digit read =>
    obtain ⟨c, cs, hcs, hc⟩ := Word.startsWithDigit_iff.mp digit
    exact Number.of_read?_of_isDigit hcs hc read

lemma agrees_iff_eq (hi : i.Spelled) (hj : j.Spelled) : i.agrees j ↔ i = j := by
  cases i <;> cases j
  case number.number x y =>
    obtain ⟨hx, hx'⟩ := hi.unsigned
    obtain ⟨hy, hy'⟩ := hj.unsigned
    rw [agrees, Number.beq_iff_eq_of_nonneg hx hy hx' hy', number.injEq]
  all_goals simp [agrees]

end Instruction.Spelled

/-- A program of a statement, or the one that there is without a statement. -/
def Program.Compiled (p : Program) : Prop := p = .empty ∨ ∃ statement, parse statement = .ok p

namespace Program.Compiled

lemma spelled (h : p.Compiled) : ∀ i ∈ p.code, i.Spelled := by
  rcases h with rfl | ⟨statement, h⟩
  · simp [Program.empty]
  · exact spelled_of_parse h

lemma agrees_zip_iff {is js : List Instruction} (his : ∀ i ∈ is, i.Spelled)
    (hjs : ∀ j ∈ js, j.Spelled) :
    (is.length == js.length && (is.zip js).all fun (i, j) => i.agrees j) ↔ is = js := by
  induction is generalizing js with
  | nil => cases js <;> simp
  | cons i is ih =>
    cases js with
    | nil => simp
    | cons j js =>
      obtain ⟨hi, his⟩ := List.forall_mem_cons.mp his
      obtain ⟨hj, hjs⟩ := List.forall_mem_cons.mp hjs
      have hrest := ih his hjs
      have hfirst := hi.agrees_iff_eq hj
      simp only [Bool.and_eq_true, beq_iff_eq] at hrest
      simp [List.cons.injEq, ← hrest, ← hfirst, and_left_comm]

/-- Equal programs of statements are the same. -/
theorem beq_iff (hp : p.Compiled) (hq : q.Compiled) : p == q ↔ p = q := by
  obtain ⟨is⟩ := p
  obtain ⟨js⟩ := q
  rw [mk.injEq]
  exact agrees_zip_iff hp.spelled hq.spelled

end Program.Compiled

lemma Builtin.name_injective : Function.Injective Builtin.name := by
  intro f g h
  have hname := Builtin.ofName?_name f
  rw [h, Builtin.ofName?_name] at hname
  exact (Option.some.inj hname).symm

/-- Equality of programs of statements is an equivalence, and equal ones have the same text, the
same variables and the same value from every source. None of their numbers is NaN or has a sign, and
functions are told apart by their names. -/
theorem Program.Compiled.beq_congruence (hp : p.Compiled) (hq : q.Compiled) (hr : r.Compiled) :
    (p == p ∧ (p == q → q == p) ∧ (p == q → q == r → p == r)) ∧
      (p == q → p.text = q.text ∧ p.freeVariables = q.freeVariables ∧
        ∀ (source : Source) (draws : Draws),
          p.evaluate source draws = q.evaluate source draws) ∧
      (∀ x, .number x ∈ p.code → x.isNaN = false ∧ Number.isNegative x = false) ∧
      ∀ f g : Builtin, (f == g) = (f.name == g.name) := by
  rw [hp.beq_iff hp, hp.beq_iff hq, hq.beq_iff hp, hq.beq_iff hr, hp.beq_iff hr]
  refine ⟨⟨rfl, Eq.symm, Eq.trans⟩, ?_, fun x hx => (hp.spelled _ hx).unsigned, ?_⟩
  · rintro rfl
    exact ⟨rfl, rfl, fun _ _ => rfl⟩
  · intro f g
    rw [Bool.eq_iff_iff, beq_iff_eq, beq_iff_eq]
    exact ⟨congrArg Builtin.name, fun h => Builtin.name_injective h⟩

/-- The parse tree of `-2 * x`, where the number may be written in another way. -/
def Sentence.minusTwice (text : String) (digit : Word.startsWithDigit text)
    (read : Number.read? text = some 2) : Sentence :=
  .phrase (.signed .sub (.refl true) (.join (.operand (.number text 2 digit read)) .mul
    (.variable "x" (.refl false) Builtin.ofName?_x)))

/-- Statements with `2` and with `2.0` have equal programs. -/
theorem beq_minusTwice :
    parse "-2 * x" = .ok (Sentence.minusTwice "2" (by decide) (by decide +kernel)).program ∧
      parse "-2.0*x" = .ok (Sentence.minusTwice "2.0" (by decide) (by decide +kernel)).program ∧
      (Sentence.minusTwice "2" (by decide) (by decide +kernel)).program
        == (Sentence.minusTwice "2.0" (by decide) (by decide +kernel)).program ∧
      (Sentence.minusTwice "2" (by decide) (by decide +kernel)).program.text
        = (Sentence.minusTwice "2.0" (by decide) (by decide +kernel)).program.text ∧
      Program.empty == Program.empty := by
  have hshort : parse "-2 * x"
      = .ok (Sentence.minusTwice "2" (by decide) (by decide +kernel)).program :=
    parse_of_tokens (by decide +kernel) _ (by decide +kernel)
  have hlong : parse "-2.0*x"
      = .ok (Sentence.minusTwice "2.0" (by decide) (by decide +kernel)).program :=
    parse_of_tokens (by decide +kernel) _ (by decide +kernel)
  have hbeq : (Sentence.minusTwice "2" (by decide) (by decide +kernel)).program
      == (Sentence.minusTwice "2.0" (by decide) (by decide +kernel)).program := by
    decide +kernel
  obtain ⟨-, hcongr, -⟩ := Program.Compiled.beq_congruence (.inr ⟨_, hshort⟩) (.inr ⟨_, hlong⟩)
    (.inl rfl)
  obtain ⟨⟨hrefl, -⟩, -⟩ := Program.Compiled.beq_congruence (.inl rfl) (.inr ⟨_, hshort⟩)
    (.inr ⟨_, hlong⟩)
  exact ⟨hshort, hlong, hbeq, (hcongr hbeq).1, hrefl⟩

end InfixCalc

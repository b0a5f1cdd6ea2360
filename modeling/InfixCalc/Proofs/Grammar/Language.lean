import InfixCalc.Proofs.Grammar.Tracking
import InfixCalc.Proofs.Tree.Depth

/-!
# The language

A statement has a program just if the grammar derives it, and its program is the one that the
grammar gives it: the expression that the statement stands for in postorder. Such a program never
lacks a number that an instruction takes, and leaves exactly one.
-/

namespace InfixCalc

/-- Whether the grammar derives a statement. -/
def Derivable (statement : String) : Prop :=
  Legal statement ∧ ∃ s : Sentence, tokens statement = s.tokens

variable {statement : String} {p : Program}

/-- Exactly the statements that the grammar derives have a program, and all others are rejected. -/
theorem parse_accepts_iff_derivable (statement : String) :
    ((∃ p, parse statement = .ok p) ↔ Derivable statement) ∧
      ((∃ r, parse statement = .error r ∧ r.statement = statement) ↔ ¬ Derivable statement) := by
  have haccepts : (∃ p, parse statement = .ok p) ↔ Derivable statement := by
    constructor
    · rintro ⟨p, hp⟩
      exact exists_sentence_of_parse hp
    · rintro ⟨hlegal, s, htokens⟩
      exact ⟨s.program, parse_of_tokens hlegal s htokens⟩
  refine ⟨haccepts, ?_⟩
  rw [← haccepts]
  constructor
  · rintro ⟨r, hr, -⟩ ⟨p, hp⟩
    rw [hr] at hp
    cases hp
  · intro hnone
    cases hparse : parse statement with
    | ok p => exact absurd ⟨p, hparse⟩ hnone
    | error r => exact ⟨r, rfl, (parse_eq_error_iff.mp hparse).1⟩

/-- The program of a statement is the expression that its parse tree stands for in postorder. -/
theorem parse_eq_ok_iff_postorder :
    parse statement = .ok p ↔
      Legal statement ∧ ∃ s : Sentence, tokens statement = s.tokens ∧ p = s.program := by
  constructor
  · intro h
    obtain ⟨hlegal, s, htokens⟩ := exists_sentence_of_parse h
    rw [parse_of_tokens hlegal s htokens] at h
    cases h
    exact ⟨hlegal, s, htokens, rfl⟩
  · rintro ⟨hlegal, s, htokens, rfl⟩
    exact parse_of_tokens hlegal s htokens

/-- The parse tree of `-a ^ b ^ c * max(d, e)`. -/
def Sentence.signedPower : Sentence :=
  let a : Chain := .operand (.variable "a" (by decide) (by decide))
  let d : Phrase := .plain (.operand (.variable "d" (by decide) (by decide)))
  let e : Phrase := .plain (.operand (.variable "e" (by decide) (by decide)))
  let power : Chain := (a.join .pow (.variable "b" (by decide) (by decide))).join .pow
    (.variable "c" (by decide) (by decide))
  .phrase (.signed .sub rfl (power.join .mul (.call .max 2 (.snoc (.one d) e) rfl)))

theorem parse_signedPower :
    Legal "-a ^ b ^ c * max(d, e)" ∧
      tokens "-a ^ b ^ c * max(d, e)" = Sentence.signedPower.tokens ∧
      parse "-a ^ b ^ c * max(d, e)" = .ok ⟨[.number 0, .variable "a", .variable "b",
        .variable "c", .operator .pow, .operator .pow, .variable "d", .variable "e",
        .call .max 2, .operator .mul, .operator .sub]⟩ := by
  have hlegal : Legal "-a ^ b ^ c * max(d, e)" := by
    decide +kernel
  have htokens : tokens "-a ^ b ^ c * max(d, e)" = Sentence.signedPower.tokens := by
    decide +kernel
  exact ⟨hlegal, htokens, parse_eq_ok_iff_postorder.mpr ⟨hlegal, .signedPower, htokens, rfl⟩⟩

/-! ### Stack discipline -/

/-- The program of a sentence is empty or stack-disciplined. -/
lemma Sentence.stackDisciplined_program (s : Sentence) :
    s = .blank ∨ StackDisciplined s.program.code := by
  cases s with
  | blank => exact .inl rfl
  | phrase p => exact .inr (Tree.stackDisciplined_code p.applicable_tree)

/-- A statement with a program is blank, or its program is stack-disciplined. -/
lemma blank_or_stackDisciplined (h : parse statement = .ok p) :
    p.code = [] ∧ Blank statement ∨ ¬ Blank statement ∧ StackDisciplined p.code := by
  obtain ⟨hlegal, s, htokens, rfl⟩ := exists_program_of_parse h
  rw [← tokens_eq_nil_iff hlegal]
  rcases s.stackDisciplined_program with rfl | hs
  · exact .inl ⟨rfl, htokens⟩
  · refine .inr ⟨?_, hs⟩
    intro hnil
    have hblank := parse_of_tokens hlegal .blank hnil
    rw [h] at hblank
    exact hs.ne_nil (congrArg Program.code (Except.ok.inj hblank))

/-- The program of a blank statement is empty. Any other one takes no number from the stack that it
has not put there, and leaves just one. So an evaluation gives every function arguments of a number
that it takes and never fails because of its stack, whatever the source. An error that tells of a
stack can only be what the check of the source has come to before the program starts, and a check of
names never comes to that. -/
theorem stackDisciplined_of_parse (h : parse statement = .ok p) :
    (p.code = [] ∧ Blank statement ∨ ¬ Blank statement ∧ StackDisciplined p.code) ∧
      (∀ (source : Source) (draws : Draws) (d : Nat),
        p.evaluate source draws = .error (.stackImbalance d) ↔
          source.check = .error (.stackImbalance d)) ∧
      (∀ (names : List String) (get? : String → Option Float) (draws : Draws) (d : Nat),
        p.evaluate ⟨checkNames names, get?⟩ draws ≠ .error (.stackImbalance d)) ∧
      ∀ (source : Source) (draws : Draws) (k : Nat) (f : Builtin) (n : Nat) (m : Machine),
        p.code[k]? = some (.call f n) →
        Machine.initial.run source draws (p.code.take k) = .ok m →
          (m.stack.take n).reverse.length = n ∧ f.arity.accepts n ∧
            (f.apply (m.stack.take n).reverse).isSome := by
  have hcases := blank_or_stackDisciplined h
  have hiff : ∀ (source : Source) (draws : Draws) (d : Nat),
      p.evaluate source draws = .error (.stackImbalance d) ↔
        source.check = .error (.stackImbalance d) :=
    p.evaluate_eq_stackImbalance_iff_check (hcases.imp And.left And.right)
  refine ⟨hcases, hiff, ?_, ?_⟩
  · intro names get? draws d h
    obtain ⟨name, hname⟩ := eq_reservedName_of_checkNames ((hiff _ draws d).mp h)
    cases hname
  · intro source draws k f n m hcall hrun
    rcases hcases with ⟨hnil, -⟩ | ⟨-, hdisciplined⟩
    · rw [hnil] at hcall
      cases hcall
    · have hfits := hdisciplined.call_fits hcall hrun
      have hlength := Machine.length_take_of_fits hfits
      refine ⟨hlength, hfits.2, Builtin.isSome_apply_of_accepts ?_⟩
      rw [hlength]
      exact hfits.2

/-- In `-a ^ b ^ c * max(d, e)` the call finds the values of `d` and `e` above two other numbers. -/
theorem stackDisciplined_signedPower :
    parse "-a ^ b ^ c * max(d, e)" = .ok Sentence.signedPower.program ∧
      StackDisciplined Sentence.signedPower.program.code ∧
      Machine.initial.run (.ofFunction fun _ => some 1) (.ofSeed 0)
          (Sentence.signedPower.program.code.take 8)
        = .ok ⟨[1, 1, Float.pow 1 (Float.pow 1 1), 0], 0⟩ ∧
      (Builtin.max.apply [1, 1]).isSome := by
  have hparse : parse "-a ^ b ^ c * max(d, e)" = .ok Sentence.signedPower.program :=
    parse_of_tokens (by decide +kernel) _ (by decide +kernel)
  have hrun : Machine.initial.run (.ofFunction fun _ => some 1) (.ofSeed 0)
      (Sentence.signedPower.program.code.take 8)
        = .ok ⟨[1, 1, Float.pow 1 (Float.pow 1 1), 0], 0⟩ := rfl
  obtain ⟨hcases, -, -, hcall⟩ := stackDisciplined_of_parse hparse
  refine ⟨hparse, ?_, hrun, (hcall _ _ 8 .max 2 _ rfl hrun).2.2⟩
  rcases hcases with ⟨hnil, -⟩ | ⟨-, hdisciplined⟩
  · cases hnil
  · exact hdisciplined

end InfixCalc

import InfixCalc.Proofs.Grammar.Language
import InfixCalc.Proofs.Grammar.Names
import InfixCalc.Proofs.Machine.Agreement

/-!
# Evaluation of statements

What the evaluation of a statement comes to is decided by its source alone: by the check of the
source, which can refuse it for any reason, and by which of the free variables of the statement have
a value. No other error is left, because the program of a statement is that of a tree. And since the
free variables are among the names that the statement mentions, answers for other names do not
matter.
-/

namespace InfixCalc

variable {statement : String} {p : Program}

lemma Program.evaluate_of_check_error {source : Source} {e : EvaluationError}
    (h : source.check = .error e) (draws : Draws) : p.evaluate source draws = .error e := by
  rw [evaluate, h]
  rfl

/-- The first free variable without a value is the error of a sentence. -/
lemma Sentence.evaluate_program_of_unbound (s : Sentence) {source : Source}
    (hcheck : source.check = .ok ()) {name : String}
    (h : s.program.freeVariables.find? (fun name => (source.get? name).isNone) = some name)
    (draws : Draws) : s.program.evaluate source draws = .error (.unknownVariable name) := by
  cases s with
  | blank => cases h
  | phrase p =>
    rw [program, ← Tree.firstUnknown_names] at h
    rw [program, Tree.evaluate_code _ p.applicable_tree hcheck,
      Tree.eval_of_firstUnknown_eq_some _ h]
    rfl

/-- A sentence all of whose free variables have values has a value itself. -/
lemma Sentence.exists_value_program (s : Sentence) {source : Source}
    (hcheck : source.check = .ok ())
    (h : s.program.freeVariables.find? (fun name => (source.get? name).isNone) = none)
    (draws : Draws) : ∃ x, s.program.evaluate source draws = .ok x := by
  cases s with
  | blank =>
    refine ⟨0, ?_⟩
    rw [Program.evaluate, hcheck]
    rfl
  | phrase p =>
    rw [program, ← Tree.firstUnknown_names] at h
    obtain ⟨r, hr⟩ := Tree.eval_of_firstUnknown_eq_none _ h draws 0
    refine ⟨r.1, ?_⟩
    rw [program, Tree.evaluate_code _ p.applicable_tree hcheck, hr]
    rfl

/-- The evaluation of a statement fails with the error of the check of its source, or else at the
first of its free variables that has no value, or else not at all. -/
theorem evaluate_of_parse (h : parse statement = .ok p) (source : Source) (draws : Draws) :
    (∀ e, source.check = .error e → p.evaluate source draws = .error e) ∧
      (source.check = .ok () →
        (∀ name, p.freeVariables.find? (fun name => (source.get? name).isNone) = some name →
          p.evaluate source draws = .error (.unknownVariable name)) ∧
        (p.freeVariables.find? (fun name => (source.get? name).isNone) = none →
          ∃ x, p.evaluate source draws = .ok x)) ∧
      ∀ e, p.evaluate source draws = .error e →
        source.check = .error e ∨
          source.check = .ok () ∧ ∃ name,
            p.freeVariables.find? (fun name => (source.get? name).isNone) = some name ∧
              e = .unknownVariable name := by
  obtain ⟨-, s, -, rfl⟩ := exists_program_of_parse h
  refine ⟨fun e he => Program.evaluate_of_check_error he draws, ?_, ?_⟩
  · intro hcheck
    exact ⟨fun name hname => s.evaluate_program_of_unbound hcheck hname draws,
      fun hnone => s.exists_value_program hcheck hnone draws⟩
  · intro e he
    cases hcheck : source.check with
    | error e' =>
      rw [Program.evaluate_of_check_error hcheck] at he
      cases he
      exact .inl rfl
    | ok _ =>
      cases hfind : s.program.freeVariables.find? fun name => (source.get? name).isNone with
      | none =>
        obtain ⟨x, hx⟩ := s.exists_value_program hcheck hfind draws
        rw [hx] at he
        cases he
      | some name =>
        rw [s.evaluate_program_of_unbound hcheck hfind] at he
        cases he
        exact .inr ⟨rfl, name, rfl, rfl⟩

/-- In `-a ^ b ^ c * max(d, e)` the first of the two names without a value is `c`. -/
theorem evaluate_signedPower_unbound :
    parse "-a ^ b ^ c * max(d, e)" = .ok Sentence.signedPower.program ∧
      Sentence.signedPower.program.freeVariables = ["a", "b", "c", "d", "e"] ∧
      (Source.ofTable [("e", 0), ("b", 1), ("a", 2)]).check = .ok () ∧
      Sentence.signedPower.program.evaluate (.ofTable [("e", 0), ("b", 1), ("a", 2)]) (.ofSeed 0)
        = .error (.unknownVariable "c") := by
  have hparse : parse "-a ^ b ^ c * max(d, e)" = .ok Sentence.signedPower.program :=
    parse_of_tokens (by decide +kernel) _ (by decide +kernel)
  have hcheck : (Source.ofTable [("e", 0), ("b", 1), ("a", 2)]).check = .ok () := by decide
  obtain ⟨-, houtcome, -⟩ := evaluate_of_parse hparse
    (.ofTable [("e", 0), ("b", 1), ("a", 2)]) (.ofSeed 0)
  exact ⟨hparse, by decide, hcheck, (houtcome hcheck).1 "c" (by decide)⟩

/-- Two sources that agree on the free variables of a statement lead to the same outcome. What a
function answers for reserved names, or for names that the statement does not mention, has no
influence on it. -/
theorem evaluate_eq_of_agree (h : parse statement = .ok p) :
    (∀ a b : Source, a.check = .ok () → b.check = .ok () →
      (∀ name ∈ p.freeVariables, a.get? name = b.get? name) →
        ∀ draws, p.evaluate a draws = p.evaluate b draws) ∧
      ∀ f g : String → Option Float,
        (∀ name, .segment name ∈ tokens statement → isReserved name = false → f name = g name) →
          ∀ draws, p.evaluate (.ofFunction f) draws = p.evaluate (.ofFunction g) draws := by
  constructor
  · intro a b ha hb hagree draws
    exact Program.evaluate_congr ha hb hagree
  · intro f g hagree draws
    apply Program.evaluate_congr rfl rfl
    intro name hname
    obtain ⟨hmentioned, hreserved⟩ := mentioned_of_mem_freeVariables h hname
    exact hagree name hmentioned hreserved

/-- The parse tree of `x * PI`. -/
def Sentence.timesPi : Sentence :=
  .phrase (.plain (.join (.operand (.variable "x" (by decide) (by decide))) .mul
    (.variable "PI" (by decide) (by decide))))

/-- In `x * PI` only the answer for `x` matters, and not that for `PI`. -/
theorem evaluate_timesPi_of_agree :
    parse "x * PI" = .ok Sentence.timesPi.program ∧
      Sentence.timesPi.program.freeVariables = ["x"] ∧
      (Source.ofTable [("x", 2)]).check = .ok () ∧
      Sentence.timesPi.program.evaluate (.ofTable [("x", 2)]) (.ofSeed 0)
        = Sentence.timesPi.program.evaluate (.ofFunction fun _ => some 2) (.ofSeed 0) ∧
      Sentence.timesPi.program.evaluate
          (.ofFunction fun name => if name = "PI" then some 3 else some 2) (.ofSeed 0)
        = Sentence.timesPi.program.evaluate (.ofFunction fun _ => some 2) (.ofSeed 0) := by
  have hparse : parse "x * PI" = .ok Sentence.timesPi.program :=
    parse_of_tokens (by decide +kernel) _ (by decide +kernel)
  have hcheck : (Source.ofTable [("x", 2)]).check = .ok () := by decide
  have hfree : Sentence.timesPi.program.freeVariables = ["x"] := by decide
  obtain ⟨hagree, hfunctions⟩ := evaluate_eq_of_agree hparse
  refine ⟨hparse, hfree, hcheck, ?_, ?_⟩
  · apply hagree _ _ hcheck rfl
    rw [hfree]
    intro name hname
    rw [List.mem_singleton.mp hname]
    rfl
  · apply hfunctions
    intro name _ hreserved
    have hpi : name ≠ "PI" := by
      rintro rfl
      cases hreserved
    rw [if_neg hpi]

end InfixCalc

import InfixCalc.Proofs.Bindings.Store
import InfixCalc.Proofs.CommandLine.Answers
import InfixCalc.Proofs.CommandLine.Statements

/-!
# Sessions

A session answers the statements of a text, be it that of a file or the one on the command line, if
its bindings can be made. On two texts with a line feed between them it is the session on the one
and, unless that fails, the session on the other. On a text that is a single statement it shows the
value of this statement or why there is none.
-/

namespace InfixCalc.CommandLine

deriving instance DecidableEq for Options

variable {options : Options} {text : String} {b : Bindings} {draws draws' : Draws}

/-! ### Options -/

lemma run_of_arguments {arguments : List String} (h : Options.ofArguments arguments = .ok options)
    (fileText : String → Except String String) (draws : Draws) :
    run arguments fileText draws = options.run (options.text fileText) draws := by
  rw [run, h]

namespace Options

lemma text_of_file {fileText : String → Except String String} (h : options.file)
    (htext : fileText options.contents = .ok text) : options.text fileText = .ok text := by
  rw [Options.text, if_pos h, htext]

lemma text_of_inline (h : options.file = false) (fileText : String → Except String String) :
    options.text fileText = .ok options.contents := by
  rw [Options.text, h, if_neg Bool.false_ne_true]

lemma run_of_ofPairs (h : Bindings.ofPairs options.bindings = .ok b) (text : String)
    (draws : Draws) :
    options.run (.ok text) draws = answerAll options (.ofBindings b) draws (statements text) := by
  rw [Options.run, h]

lemma run_of_refused {e : EvaluationError} (h : Bindings.ofPairs options.bindings = .error e)
    (text : Except String String) (draws : Draws) :
    options.run text draws = .failure e.message := by
  rw [Options.run, h]

/-- Two texts are dealt with one after the other, and the second only if the first does not fail. -/
theorem run_append {text' : String} (hfree : ∀ s ∈ statements text', RandFree s) (text : String)
    (draws : Draws) :
    options.run (.ok (text ++ "\n" ++ text')) draws
      = (options.run (.ok text) draws).andThen (options.run (.ok text') draws) := by
  cases hb : Bindings.ofPairs options.bindings with
  | error e =>
    rw [run_of_refused hb, run_of_refused hb, Outcome.andThen_of_ne]
    exact Nat.one_ne_zero
  | ok b =>
    rw [run_of_ofPairs hb, run_of_ofPairs hb, run_of_ofPairs hb, statements_append,
      answerAll_append hfree]

end Options

/-! ### Files -/

/-- The statements of a file are its lines without the white space at their ends, except for empty
ones and comments. A session on the file prints nothing if a binding has a reserved name or that of
another one. Otherwise it prints a line for each statement, up to the first that fails, and it
succeeds without a word about errors just if none fails. It goes on after a part of the file as if
the rest were a file of its own. -/
theorem answered_of_file (options : Options) (hfree : ∀ s ∈ statements text, RandFree s)
    (draws draws' : Draws) :
    statements text
        = ((lines text).map trimmed).filter (fun s => s ≠ "" ∧ ¬ ['/', '/'] <+: s.toList) ∧
      (∀ arguments fileText, Options.ofArguments arguments = .ok options → options.file →
        fileText options.contents = .ok text →
          run arguments fileText draws = options.run (.ok text) draws) ∧
      (¬ Acceptable options.bindings →
        (options.run (.ok text) draws).code = 1 ∧ (options.run (.ok text) draws).stdout = "") ∧
      (Acceptable options.bindings → ∃ b, Bindings.ofPairs options.bindings = .ok b ∧
        Answered options.verbose (printed options.showCode (.ofBindings b) draws')
          (statements text) (options.run (.ok text) draws) ∧
        ((options.run (.ok text) draws).code = 0 ↔
          ∀ s ∈ statements text, ∃ out,
            printed options.showCode (.ofBindings b) draws' s = .ok out) ∧
        (options.verbose = false → (options.run (.ok text) draws).code = 0 →
          (options.run (.ok text) draws).stderr = "")) ∧
      ∀ front back, text = front ++ "\n" ++ back →
        options.run (.ok text) draws
          = (options.run (.ok front) draws).andThen (options.run (.ok back) draws) := by
  refine ⟨statements_eq_filter text, ?_, ?_, ?_, ?_⟩
  · intro arguments fileText harguments hfile htext
    rw [run_of_arguments harguments, Options.text_of_file hfile htext]
  · intro hrefused
    rcases Bindings.ofPairs_cases options.bindings with ⟨hpairs, -⟩ | ⟨e, he, -⟩
    · exact absurd hpairs hrefused
    · rw [Options.run_of_refused he]
      exact ⟨rfl, rfl⟩
  · intro hpairs
    rcases Bindings.ofPairs_cases options.bindings with ⟨-, b, hb, -⟩ | ⟨e, -, hfault⟩
    · have hanswered := answered_answerAll options (.ofBindings b) hfree draws draws'
      rw [← Options.run_of_ofPairs hb] at hanswered
      refine ⟨b, hb, hanswered, hanswered.code_eq_zero_iff, ?_⟩
      intro hverbose
      rw [hverbose] at hanswered
      exact hanswered.stderr_eq_empty
    · exact absurd hpairs hfault.not_acceptable
  · rintro front back rfl
    refine Options.run_append (fun s hs => hfree s ?_) front draws
    rw [statements_append]
    exact List.mem_append_right _ hs

/-- Comments and blank lines of a file are left out, and `x` is bound in all its statements. -/
theorem answered_of_file_setup :
    Options.ofArguments ["-v", "x=4", "-f", "statements.txt"]
        = .ok ⟨true, [("x", 4)], false, false, "statements.txt"⟩ ∧
      statements "// setup\n\n1 + 2\n   \n  x * 2\n// done\n" = ["1 + 2", "x * 2"] ∧
      (∀ s ∈ ["1 + 2", "x * 2"], RandFree s) ∧ Acceptable [("x", 4)] ∧
      ∃ b, Bindings.ofPairs [("x", 4)] = .ok b ∧
        Answered false (printed false (.ofBindings b) (.ofSeed 0)) ["1 + 2", "x * 2"]
          (run ["-v", "x=4", "-f", "statements.txt"]
            (fun _ => .ok "// setup\n\n1 + 2\n   \n  x * 2\n// done\n") (.ofSeed 1)) := by
  have harguments : Options.ofArguments ["-v", "x=4", "-f", "statements.txt"]
      = .ok ⟨true, [("x", 4)], false, false, "statements.txt"⟩ := by decide +kernel
  have hstatements : statements "// setup\n\n1 + 2\n   \n  x * 2\n// done\n"
      = ["1 + 2", "x * 2"] := by decide +kernel
  have hfree : ∀ s ∈ ["1 + 2", "x * 2"], RandFree s := by decide +kernel
  have hpairs : Acceptable [("x", 4)] := by decide
  have hfree' : ∀ s ∈ statements "// setup\n\n1 + 2\n   \n  x * 2\n// done\n", RandFree s := by
    rwa [hstatements]
  obtain ⟨-, hrun, -, hanswered, -⟩ := answered_of_file
    ⟨true, [("x", 4)], false, false, "statements.txt"⟩ hfree' (.ofSeed 1) (.ofSeed 0)
  obtain ⟨b, hb, hanswered, -⟩ := hanswered hpairs
  rw [← hrun _ (fun _ => .ok _) harguments rfl rfl, hstatements] at hanswered
  exact ⟨harguments, hstatements, hfree, hpairs, b, hb, hanswered⟩

/-- A pair of parentheses around blanks only. -/
def emptyGroup (n : Nat) : String := String.ofList ('(' :: (List.replicate n ' ' ++ [')']))

lemma parse_emptyGroup (n : Nat) :
    parse (emptyGroup n) = .error ⟨Cause.emptyParentheses.at (1 + n), emptyGroup n⟩ := by
  have hwords : words (emptyGroup n) = [⟨.opening, 0⟩, ⟨.closing, 1 + n⟩] := by
    rw [words, items, emptyGroup, String.toList_ofList, Lexeme.scan_token rfl, scan_blanks_closing]
    rfl
  rw [parse, compile, hwords]
  rfl

lemma statements_emptyGroup (n : Nat) : statements (emptyGroup n) = [emptyGroup n] := by
  have hlast : ('(' :: (List.replicate n ' ' ++ [')'])).getLast? = some ')' := by
    rw [← List.cons_append, List.getLast?_concat]
  apply statements_of_line
  · simp [emptyGroup]
  · rw [trimmed, emptyGroup, String.toList_ofList, Text.trim_eq_self]
    · rintro _ ⟨⟩
      decide
    · rw [hlast]
      rintro _ ⟨⟩
      decide
  · simp [emptyGroup, isStatement]

/-- A parenthesis too far to the right cannot be pointed at, so that the session breaks off. It has
printed nothing then, and its error is never shown; the message of the runtime is no part of it. -/
theorem run_emptyGroup :
    statements (emptyGroup 65534) = [emptyGroup 65534] ∧ RandFree (emptyGroup 65534) ∧
      parse (emptyGroup 65534)
        = .error ⟨Cause.emptyParentheses.at 65535, emptyGroup 65534⟩ ∧
      Acceptable [] ∧
      run ["-f", "statements.txt"] (fun _ => .ok (emptyGroup 65534)) (.ofSeed 0)
        = ⟨101, "", ""⟩ := by
  have hparse : parse (emptyGroup 65534)
      = .error ⟨Cause.emptyParentheses.at 65535, emptyGroup 65534⟩ := parse_emptyGroup 65534
  have harguments : Options.ofArguments ["-f", "statements.txt"]
      = .ok ⟨true, [], false, false, "statements.txt"⟩ := by decide +kernel
  have hfree : RandFree (emptyGroup 65534) := by
    intro p hp
    rw [hparse] at hp
    cases hp
  have hdisplay : Rejection.display? ⟨Cause.emptyParentheses.at 65535, emptyGroup 65534⟩ = none :=
    Rejection.display?_of_le rfl le_rfl
  have hpairs : Acceptable [] := by decide
  have htext : Options.text ⟨true, [], false, false, "statements.txt"⟩
      (fun _ => .ok (emptyGroup 65534)) = .ok (emptyGroup 65534) := Options.text_of_file rfl rfl
  refine ⟨statements_emptyGroup 65534, hfree, hparse, hpairs, ?_⟩
  rw [run_of_arguments harguments, htext, Options.run_of_ofPairs rfl, statements_emptyGroup,
    answerAll_of_error (answer_of_parse_error hparse _ _ _),
    Outcome.ofError, CalculationError.message?, hdisplay]
  rfl

/-! ### Statements on the command line -/

/-- A session on a text of its own treats it like a file. So it prints just the value of the text if
there is one, unless the text is blank: then the value is zero, but nothing is printed. If the text
is a single statement and has no value, the session prints nothing and reports why. -/
theorem answered_of_inline (options : Options) (hinline : options.file = false)
    (hvalue : options.showCode = false) (hb : Bindings.ofPairs options.bindings = .ok b)
    (hfree : ∀ s ∈ statements options.contents, RandFree s) (draws draws' : Draws) :
    (∀ arguments fileText, Options.ofArguments arguments = .ok options →
        run arguments fileText draws = options.run (.ok options.contents) draws) ∧
      Answered options.verbose
        (fun s => (calculate s (.ofBindings b) draws').map Number.render)
        (statements options.contents) (options.run (.ok options.contents) draws) ∧
      (Blank options.contents → calculate options.contents (.ofBindings b) draws' = .ok 0 ∧
        options.run (.ok options.contents) draws = .success) ∧
      (∀ value, ¬ Blank options.contents →
        calculate options.contents (.ofBindings b) draws' = .ok value →
          ∃ log, (options.verbose = false → log = "") ∧
            options.run (.ok options.contents) draws = ⟨0, Number.render value ++ "\n", log⟩) ∧
      ∀ error, '\n' ∉ options.contents.toList → trimmed options.contents = options.contents →
        isStatement options.contents.toList →
        calculate options.contents (.ofBindings b) draws' = .error error → error.Displayable →
          (options.run (.ok options.contents) draws).stdout = "" ∧
            (options.run (.ok options.contents) draws).Reports options.verbose error := by
  have hanswered := answered_answerAll options (.ofBindings b) hfree draws draws'
  rw [← Options.run_of_ofPairs hb, hvalue] at hanswered
  refine ⟨?_, hanswered, ?_, ?_, ?_⟩
  · intro arguments fileText harguments
    rw [run_of_arguments harguments, Options.text_of_inline hinline]
  · intro hblank
    refine ⟨calculate_of_blank hblank rfl draws', ?_⟩
    rw [Options.run_of_ofPairs hb, statements_of_blank hblank]
    rfl
  · intro value hblank hcalculate
    obtain ⟨p, hparse⟩ := exists_parse_of_calculate hcalculate
    rw [statements_of_parse hparse hblank] at hanswered
    refine hanswered.eq_of_ok ?_
    rw [printed, calculate_trimmed hcalculate]
    rfl
  · intro error hline htrimmed hstatement hcalculate hdisplayable
    rw [statements_of_line hline htrimmed hstatement] at hanswered
    refine hanswered.reports_of_error ?_ hdisplayable
    rw [printed, hcalculate]
    rfl

/-- The blank before `x * 3` does not matter, and there is no value of `z + 1`. -/
theorem answered_of_inline_product :
    Bindings.ofPairs [("x", 2)] = .ok ⟨[("x", 2)]⟩ ∧
      (∀ s ∈ statements " x * 3", RandFree s) ∧ (∀ s ∈ statements "z + 1", RandFree s) ∧
      calculate " x * 3" (.ofBindings ⟨[("x", 2)]⟩) (.ofSeed 0) = .ok 6 ∧
      run ["-v", "x=2", " x * 3"] (fun _ => .error "") (.ofSeed 1) = ⟨0, "6\n", ""⟩ ∧
      calculate "z + 1" (.ofBindings ⟨[("x", 2)]⟩) (.ofSeed 0)
        = .error (.eval (.unknownVariable "z")) ∧
      (run ["-v", "x=2", "z + 1"] (fun _ => .error "") (.ofSeed 1)).stdout = "" ∧
      (run ["-v", "x=2", "z + 1"] (fun _ => .error "") (.ofSeed 1)).Reports false
        (.eval (.unknownVariable "z")) := by
  have hb : Bindings.ofPairs [("x", 2)] = .ok ⟨[("x", 2)]⟩ := rfl
  have hfree : ∀ s ∈ statements " x * 3", RandFree s := by decide +kernel
  have hfree' : ∀ s ∈ statements "z + 1", RandFree s := by decide +kernel
  have hvalue : calculate " x * 3" (.ofBindings ⟨[("x", 2)]⟩) (.ofSeed 0) = .ok 6 := by
    decide +kernel
  have herror : calculate "z + 1" (.ofBindings ⟨[("x", 2)]⟩) (.ofSeed 0)
      = .error (.eval (.unknownVariable "z")) := by decide +kernel
  have harguments : Options.ofArguments ["-v", "x=2", " x * 3"]
      = .ok ⟨false, [("x", 2)], false, false, " x * 3"⟩ := by decide +kernel
  have harguments' : Options.ofArguments ["-v", "x=2", "z + 1"]
      = .ok ⟨false, [("x", 2)], false, false, "z + 1"⟩ := by decide +kernel
  have hrender : Number.render 6 = "6" := by decide +kernel
  obtain ⟨hrun, -, -, hok, -⟩ := answered_of_inline
    ⟨false, [("x", 2)], false, false, " x * 3"⟩ rfl rfl hb hfree (.ofSeed 1) (.ofSeed 0)
  obtain ⟨hrun', -, -, -, hfailed⟩ := answered_of_inline
    ⟨false, [("x", 2)], false, false, "z + 1"⟩ rfl rfl hb hfree' (.ofSeed 1) (.ofSeed 0)
  obtain ⟨log, hlog, hok⟩ := hok 6 (by decide) hvalue
  have hfailed := hfailed _ (by decide) (by decide +kernel) (by decide) herror trivial
  rw [← hrun _ _ harguments, hlog rfl, hrender] at hok
  rw [← hrun' _ _ harguments'] at hfailed
  exact ⟨hb, hfree, hfree', hvalue, hok, herror, hfailed⟩

/-- Two lines are no statement, but each of them is one. -/
theorem run_two_lines :
    Options.ofArguments ["1\n2"] = .ok ⟨false, [], false, false, "1\n2"⟩ ∧
      Bindings.ofPairs [] = .ok .empty ∧ RandFree "1\n2" ∧
      (∀ s ∈ statements "1\n2", RandFree s) ∧
      calculate "1\n2" (.ofBindings .empty) (.ofSeed 0)
        = .error (.parse ⟨(Cause.illegalCharacter '\n').at 1, "1\n2"⟩) ∧
      run ["1\n2"] (fun _ => .error "") (.ofSeed 0) = ⟨0, "1\n2\n", ""⟩ := by
  have harguments : Options.ofArguments ["1\n2"] = .ok ⟨false, [], false, false, "1\n2"⟩ := by
    decide +kernel
  have hfree : RandFree "1\n2" := by decide +kernel
  have hfree' : ∀ s ∈ statements "1\n2", RandFree s := by decide +kernel
  have herror : calculate "1\n2" (.ofBindings .empty) (.ofSeed 0)
      = .error (.parse ⟨(Cause.illegalCharacter '\n').at 1, "1\n2"⟩) := by decide +kernel
  have hrun : run ["1\n2"] (fun _ => .error "") (.ofSeed 0) = ⟨0, "1\n2\n", ""⟩ := by
    decide +kernel
  exact ⟨harguments, rfl, hfree, hfree', herror, hrun⟩

end InfixCalc.CommandLine

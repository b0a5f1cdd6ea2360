import InfixCalc.CommandLine.Session
import InfixCalc.Proofs.Grammar.Display
import InfixCalc.Proofs.Machine.Agreement
import Mathlib.Data.List.Forall2

/-!
# Answers to statements

A line is printed for each of some statements, up to the first that fails, and the error of that one
is reported. Statements that use no random numbers have no influence on each other, so that more of
them are answered just as if they were the only ones, unless one before them has failed.
-/

namespace InfixCalc

/-- Whether a statement uses no random numbers, if it has a program at all. -/
def RandFree (statement : String) : Prop :=
  ∀ p, parse statement = .ok p → p.drawCount = 0

/-- Whether an error has a text: the caret can be set below its place, if it has one. -/
def CalculationError.Displayable : CalculationError → Prop
  | .parse r => ∀ i ∈ r.index, i < Rejection.caretLimit
  | .eval _ => True

lemma randFree_iff {statement : String} :
    RandFree statement ↔ ((parse statement).toOption.map Program.drawCount).getD 0 = 0 := by
  unfold RandFree
  cases parse statement <;> simp [Except.toOption]

instance : DecidablePred RandFree := fun _ => decidable_of_iff _ randFree_iff.symm

lemma CalculationError.Displayable.exists_message {error : CalculationError}
    (h : error.Displayable) : ∃ message, error.message? = some message := by
  cases error with
  | eval e => exact ⟨e.message, rfl⟩
  | parse r =>
    cases hindex : r.index with
    | none => exact ⟨_, Rejection.display?_of_none hindex⟩
    | some i => exact ⟨_, Rejection.display?_of_lt hindex (h i hindex)⟩

namespace CommandLine

variable {options : Options} {source : Source} {draws draws' : Draws} {statement : String}
  {ss ts : List String}

/-- The line that is printed for a statement: its program if programs are shown, or its value. -/
def printed (showCode : Bool) (source : Source) (draws : Draws) (statement : String) :
    Except CalculationError String :=
  if showCode then ((parse statement).mapError .parse).map Program.text
  else (calculate statement source draws).map Number.render

/-- Some lines of output. -/
def unlines (outs : List String) : String := String.join (outs.map (· ++ "\n"))

namespace Outcome

/-- What is done only if nothing has failed so far. -/
def andThen (o o' : Outcome) : Outcome := if o.code = 0 then o'.after o.stdout o.stderr else o

/-- Whether a session fails with the text of an error, after a log if there is one. -/
def Reports (verbose : Bool) (error : CalculationError) (o : Outcome) : Prop :=
  o.code = 1 ∧ ∃ message log, error.message? = some message ∧ (verbose = false → log = "") ∧
    o.stderr = log ++ message ++ "\n"

end Outcome

/-- How a session ends that prints a line for each statement, up to the first that fails. -/
inductive Answered (verbose : Bool) (print : String → Except CalculationError String) :
    List String → Outcome → Prop where
  /-- No statement fails. -/
  | all {ss outs : List String} {log : String}
      (houts : List.Forall₂ (fun s out => print s = .ok out) ss outs)
      (hlog : verbose = false → log = "") : Answered verbose print ss ⟨0, unlines outs, log⟩
  /-- A statement fails after those before it have been answered, and its error is reported if it
  has a text. -/
  | failed {before outs : List String} {s : String} {error : CalculationError} {o : Outcome}
      (houts : List.Forall₂ (fun s out => print s = .ok out) before outs)
      (herror : print s = .error error) (hstdout : o.stdout = unlines outs) (hcode : o.code ≠ 0)
      (hstderr : error.Displayable → o.Reports verbose error) (after : List String) :
      Answered verbose print (before ++ s :: after) o

/-! ### Outcomes -/

namespace Outcome

variable {o o' : Outcome}

lemma after_andThen (o o' : Outcome) (stdout stderr : String) :
    (o.after stdout stderr).andThen o' = (o.andThen o').after stdout stderr := by
  by_cases h : o.code = 0
  · simp [andThen, after, h, String.append_assoc]
  · simp [andThen, after, h]

lemma success_andThen (o : Outcome) : success.andThen o = o := by
  simp [andThen, success, after]

lemma andThen_of_ne (h : o.code ≠ 0) (o' : Outcome) : o.andThen o' = o := if_neg h

lemma code_ofError_ne_zero (error : CalculationError) : (ofError error).code ≠ 0 := by
  unfold ofError
  cases error.message? with
  | none => exact Nat.succ_ne_zero 100
  | some message => exact Nat.one_ne_zero

lemma stdout_ofError (error : CalculationError) : (ofError error).stdout = "" := by
  unfold ofError
  cases error.message? <;> rfl

lemma reports_ofError {verbose : Bool} {error : CalculationError} {log : String}
    (h : error.Displayable) (hlog : verbose = false → log = "") :
    ((ofError error).after "" log).Reports verbose error := by
  obtain ⟨message, hmessage⟩ := h.exists_message
  rw [ofError, hmessage]
  exact ⟨rfl, message, log, hmessage, hlog, (String.append_assoc ..).symm⟩

lemma Reports.after {verbose : Bool} {error : CalculationError} {log : String}
    (h : o.Reports verbose error) (hlog : verbose = false → log = "") (stdout : String) :
    (o.after stdout log).Reports verbose error := by
  obtain ⟨hcode, message, log', hmessage, hlog', hstderr⟩ := h
  refine ⟨hcode, message, log ++ log', hmessage, ?_, ?_⟩
  · intro hverbose
    rw [hlog hverbose, hlog' hverbose, String.append_empty]
  · simp only [Outcome.after, hstderr, String.append_assoc]

end Outcome

lemma unlines_cons (out : String) (outs : List String) :
    unlines (out :: outs) = out ++ "\n" ++ unlines outs := by
  simp [unlines]

lemma unlines_singleton (out : String) : unlines [out] = out ++ "\n" := by
  simp [unlines]

namespace Answered

variable {verbose : Bool} {print : String → Except CalculationError String} {s out log : String}
  {o : Outcome}

lemma cons (hprint : print s = .ok out) (hlog : verbose = false → log = "")
    (h : Answered verbose print ss o) :
    Answered verbose print (s :: ss) (o.after (out ++ "\n") log) := by
  cases h with
  | @all _ outs log' houts hlog' =>
    have hlogs : verbose = false → log ++ log' = "" := by
      intro hverbose
      rw [hlog hverbose, hlog' hverbose, String.append_empty]
    have hall := Answered.all (.cons hprint houts) hlogs
    rwa [unlines_cons] at hall
  | @failed before outs s' error _ houts herror hstdout hcode hstderr after =>
    rw [← List.cons_append]
    refine .failed (.cons hprint houts) herror ?_ ?_ ?_ after
    · rw [unlines_cons, ← hstdout]
      rfl
    · exact hcode
    · exact fun herror => (hstderr herror).after hlog _

/-- A session succeeds just if none of its statements fails. -/
lemma code_eq_zero_iff (h : Answered verbose print ss o) :
    o.code = 0 ↔ ∀ s ∈ ss, ∃ out, print s = .ok out := by
  cases h with
  | all houts _ =>
    refine iff_of_true rfl fun s hs => ?_
    obtain ⟨i, hi, rfl⟩ := List.getElem_of_mem hs
    exact ⟨_, houts.get hi (houts.length_eq ▸ hi)⟩
  | @failed before outs s error _ houts herror hstdout hcode hstderr after =>
    refine iff_of_false hcode fun hall => ?_
    obtain ⟨out, hout⟩ := hall s (List.mem_append_right _ List.mem_cons_self)
    rw [herror] at hout
    cases hout

lemma stderr_eq_empty (h : Answered false print ss o) (hcode : o.code = 0) : o.stderr = "" := by
  cases h with
  | all _ hlog => exact hlog rfl
  | failed _ _ _ hne => exact absurd hcode hne

lemma eq_of_ok (h : Answered verbose print [s] o) (hprint : print s = .ok out) :
    ∃ log, (verbose = false → log = "") ∧ o = ⟨0, out ++ "\n", log⟩ := by
  generalize hss : [s] = ss at h
  cases h with
  | all houts hlog =>
    subst hss
    cases houts with
    | cons hout hrest =>
      cases hrest
      cases hprint.symm.trans hout
      refine ⟨_, hlog, ?_⟩
      rw [unlines_singleton]
  | failed houts herror =>
    obtain ⟨-, hs⟩ | ⟨-, hs⟩ := List.singleton_eq_append_iff.mp hss
    · cases hs
      cases hprint.symm.trans herror
    · cases hs

lemma reports_of_error {error : CalculationError} (h : Answered verbose print [s] o)
    (hprint : print s = .error error) (hdisplayable : error.Displayable) :
    o.stdout = "" ∧ o.Reports verbose error := by
  generalize hss : [s] = ss at h
  cases h with
  | all houts hlog =>
    subst hss
    cases houts with
    | cons hout hrest => cases hprint.symm.trans hout
  | failed houts herror hstdout hcode hstderr =>
    obtain ⟨rfl, hs⟩ | ⟨-, hs⟩ := List.singleton_eq_append_iff.mp hss
    · cases hs
      cases hprint.symm.trans herror
      cases houts
      exact ⟨hstdout, hstderr hdisplayable⟩
    · cases hs

end Answered

/-! ### Single statements -/

lemma logText_of_not_verbose (h : options.verbose = false) (log : List Event) :
    logText options log = "" := by
  rw [logText, h, if_neg Bool.false_ne_true]

lemma answer_of_parse_error {r : Rejection} (h : parse statement = .error r) (options : Options)
    (source : Source) (draws : Draws) :
    answer options source draws statement = ((compile statement).log, .error (.parse r)) := by
  unfold parse at h
  unfold answer
  cases hresult : (compile statement).result with
  | error fault =>
    rw [hresult] at h
    cases h
    simp only [hresult]
  | ok p =>
    rw [hresult] at h
    cases h

lemma answer_of_parse_ok {p : Program} (h : parse statement = .ok p) (options : Options)
    (source : Source) (draws : Draws) :
    answer options source draws statement =
      if options.showCode then ((compile statement).log, .ok ⟨p.text, 0⟩)
      else match p.evaluate source draws with
        | .ok value =>
          ((compile statement).log ++ p.evaluationLog (.ok value) ++ [.answered statement value],
            .ok ⟨Number.render value, p.drawCount⟩)
        | .error error =>
          ((compile statement).log ++ p.evaluationLog (.error error), .error (.eval error)) := by
  unfold parse at h
  unfold answer
  cases hresult : (compile statement).result with
  | error fault =>
    rw [hresult] at h
    cases h
  | ok q =>
    rw [hresult] at h
    cases h
    simp only [hresult]
    cases p.evaluate source draws <;> rfl

lemma map_text_answer (options : Options) (source : Source) (draws : Draws) (statement : String) :
    (answer options source draws statement).2.map Answer.text
      = printed options.showCode source draws statement := by
  cases hparse : parse statement with
  | error r =>
    rw [answer_of_parse_error hparse, printed, calculate, hparse]
    cases options.showCode <;> rfl
  | ok p =>
    rw [answer_of_parse_ok hparse, printed, calculate, hparse]
    cases options.showCode with
    | true => rfl
    | false => cases hvalue : p.evaluate source draws <;> simp [hvalue] <;> rfl

/-- A statement is answered with what is printed for it, or else with why nothing is. -/
lemma answer_cases (options : Options) (source : Source) (draws : Draws) (statement : String) :
    (∃ log a, answer options source draws statement = (log, .ok a) ∧
        printed options.showCode source draws statement = .ok a.text) ∨
      ∃ log error, answer options source draws statement = (log, .error error) ∧
        printed options.showCode source draws statement = .error error := by
  rw [← map_text_answer]
  rcases answer options source draws statement with ⟨log, error | a⟩
  · exact .inr ⟨log, error, rfl, rfl⟩
  · exact .inl ⟨log, a, rfl, rfl⟩

lemma answer_eq_of_randFree (h : RandFree statement) (options : Options) (source : Source)
    (draws draws' : Draws) :
    answer options source draws statement = answer options source draws' statement := by
  cases hparse : parse statement with
  | error r => rw [answer_of_parse_error hparse, answer_of_parse_error hparse]
  | ok p =>
    rw [answer_of_parse_ok hparse, answer_of_parse_ok hparse,
      p.evaluate_eq_of_drawCount_eq_zero (h p hparse) source draws draws']

/-! ### Runs -/

lemma answerAll_of_ok {log : List Event} {a : Answer}
    (h : answer options source draws statement = (log, .ok a)) (ss : List String) :
    answerAll options source draws (statement :: ss)
      = (answerAll options source (draws.drop a.drawn) ss).after (a.text ++ "\n")
          (logText options log) := by
  rw [answerAll, h]

lemma answerAll_of_error {log : List Event} {error : CalculationError}
    (h : answer options source draws statement = (log, .error error)) (ss : List String) :
    answerAll options source draws (statement :: ss)
      = (Outcome.ofError error).after "" (logText options log) := by
  rw [answerAll, h]

/-- Without random numbers the sequence that they are taken from does not matter. -/
lemma answerAll_eq_of_randFree (h : ∀ s ∈ ss, RandFree s) (draws draws' : Draws) :
    answerAll options source draws ss = answerAll options source draws' ss := by
  induction ss generalizing draws draws' with
  | nil => rfl
  | cons s ss ih =>
    obtain ⟨hs, hss⟩ := List.forall_mem_cons.mp h
    have hanswer := answer_eq_of_randFree hs options source draws draws'
    rcases answer_cases options source draws s with ⟨log, a, ha, -⟩ | ⟨log, error, he, -⟩
    · rw [answerAll_of_ok ha, answerAll_of_ok (hanswer.symm.trans ha),
        ih hss (draws.drop a.drawn) (draws'.drop a.drawn)]
    · rw [answerAll_of_error he, answerAll_of_error (hanswer.symm.trans he)]

theorem answered_answerAll (options : Options) (source : Source) (h : ∀ s ∈ ss, RandFree s)
    (draws draws' : Draws) :
    Answered options.verbose (printed options.showCode source draws') ss
      (answerAll options source draws ss) := by
  rw [answerAll_eq_of_randFree h draws draws']
  clear draws
  -- Every statement is answered with the numbers of `draws'`, whatever has been used up before it.
  induction ss with
  | nil => exact .all .nil fun _ => rfl
  | cons s ss ih =>
    obtain ⟨-, hss⟩ := List.forall_mem_cons.mp h
    have hlog (log : List Event) : options.verbose = false → logText options log = "" :=
      fun hverbose => logText_of_not_verbose hverbose log
    rcases answer_cases options source draws' s with ⟨log, a, ha, hprinted⟩ |
      ⟨log, error, he, hprinted⟩
    · rw [answerAll_of_ok ha, answerAll_eq_of_randFree hss (draws'.drop a.drawn) draws']
      exact (ih hss).cons hprinted (hlog log)
    · rw [answerAll_of_error he]
      refine .failed .nil hprinted ?_ ?_ (Outcome.reports_ofError · (hlog log)) ss
      · rw [Outcome.after, Outcome.stdout_ofError]
        rfl
      · exact Outcome.code_ofError_ne_zero error

/-- Statements are answered one after the other, and none is any more once one has failed. -/
theorem answerAll_append (h : ∀ t ∈ ts, RandFree t) (ss : List String) (draws : Draws) :
    answerAll options source draws (ss ++ ts)
      = (answerAll options source draws ss).andThen (answerAll options source draws ts) := by
  induction ss generalizing draws with
  | nil => exact (Outcome.success_andThen _).symm
  | cons s ss ih =>
    rw [List.cons_append]
    rcases answer_cases options source draws s with ⟨log, a, ha, -⟩ | ⟨log, error, he, -⟩
    · rw [answerAll_of_ok ha, answerAll_of_ok ha, ih, Outcome.after_andThen,
        answerAll_eq_of_randFree h (draws.drop a.drawn) draws]
    · rw [answerAll_of_error he, answerAll_of_error he, Outcome.andThen_of_ne]
      exact Outcome.code_ofError_ne_zero error

end CommandLine

end InfixCalc

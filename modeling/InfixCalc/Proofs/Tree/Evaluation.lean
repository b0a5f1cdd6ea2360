import InfixCalc.Proofs.Machine.Depth
import InfixCalc.Proofs.Tree.Basic

/-!
# Programs of trees

The program of a tree does on a stack what `Tree.eval` does without one: it pushes the value of the
tree and leaves alone what lies below, or it stops at the first name without a value. What comes
after it in a longer program therefore sees just one number more.
-/

namespace InfixCalc

variable {source : Source} {draws : Draws}

namespace Tree

/-! ### Execution -/

lemma length_of_evals {ts : List Tree} {drawn : Nat} {r : List Float × Nat}
    (h : evals source draws ts drawn = .ok r) : r.1.length = ts.length := by
  induction ts generalizing drawn r with
  | nil =>
    cases h
    rfl
  | cons t ts ih =>
    obtain ⟨x, -, h⟩ := bind_eq_ok_iff.mp h
    obtain ⟨xs, hxs, h⟩ := bind_eq_ok_iff.mp h
    cases h
    simp [ih hxs]

/-- A call takes its arguments off the stack in the order in which they were pushed. -/
lemma step_call {f : Builtin} {xs stack : List Float} {drawn n : Nat} (hn : xs.length = n)
    (hf : f.arity.accepts n) :
    Machine.step source draws ⟨xs.reverse ++ stack, drawn⟩ (.call f n)
      = .ok ⟨f.value xs :: stack, drawn⟩ := by
  subst hn
  have hfits : (Instruction.call f xs.length).Fits
      (Machine.depth ⟨xs.reverse ++ stack, drawn⟩) := by
    refine ⟨?_, hf⟩
    rw [Machine.depth, Int.ofNat_le, List.length_append, List.length_reverse]
    exact Nat.le_add_right _ _
  have htake : (xs.reverse ++ stack).take xs.length = xs.reverse := by simp
  have hdrop : (xs.reverse ++ stack).drop xs.length = stack := by simp
  rw [Machine.step_call_of_fits hfits, htake, hdrop, List.reverse_reverse]

mutual
theorem run_code_append (t : Tree) (ht : t.Applicable) (m : Machine) (rest : List Instruction) :
    m.run source draws (t.code ++ rest)
      = (t.eval source draws m.drawn).bind fun (x, drawn) =>
          Machine.run source draws ⟨x :: m.stack, drawn⟩ rest := by
  match t with
  | .number value => rfl
  | .variable name =>
    simp only [code, eval, List.cons_append, List.nil_append, Machine.run_cons, Machine.step]
    cases source.resolve (draws m.drawn) name <;>
      simp [Except.map, Except.bind, bind, pure, Except.pure, Instruction.draws]
  | .binary op left right =>
    have hleft := run_code_append left ht.1 m (right.code ++ .operator op :: rest)
    simp only [code, eval, List.append_assoc, List.cons_append, List.nil_append, hleft]
    cases left.eval source draws m.drawn with
    | error e => rfl
    | ok x =>
      have hright := run_code_append right ht.2 ⟨x.1 :: m.stack, x.2⟩ (.operator op :: rest)
      simp only [Except.bind, bind, hright]
      cases right.eval source draws x.2 <;> rfl
  | .call f arguments =>
    have hargs := run_codes_append arguments ht.2 m (.call f arguments.length :: rest)
    simp only [code, eval, List.append_assoc, List.cons_append, List.nil_append, hargs]
    cases hxs : evals source draws arguments m.drawn with
    | error e => rfl
    | ok xs =>
      simp only [Except.bind, bind, Machine.run_cons, step_call (length_of_evals hxs) ht.1]
      rfl

theorem run_codes_append (ts : List Tree) (hts : AllApplicable ts) (m : Machine)
    (rest : List Instruction) :
    m.run source draws (codes ts ++ rest)
      = (evals source draws ts m.drawn).bind fun (xs, drawn) =>
          Machine.run source draws ⟨xs.reverse ++ m.stack, drawn⟩ rest := by
  match ts with
  | [] => rfl
  | t :: ts =>
    have ht := run_code_append t hts.1 m (codes ts ++ rest)
    simp only [codes, evals, List.append_assoc, ht]
    cases t.eval source draws m.drawn with
    | error e => rfl
    | ok x =>
      have hrest := run_codes_append ts hts.2 ⟨x.1 :: m.stack, x.2⟩ rest
      simp only [Except.bind, bind, hrest]
      cases evals source draws ts x.2 with
      | error e => rfl
      | ok xs => simp [pure, Except.pure]
end

/-! ### Names without a value -/

mutual
lemma eval_of_firstUnknown_eq_none (t : Tree) (h : source.firstUnknown t.names = none)
    (draws : Draws) (drawn : Nat) : ∃ r, t.eval source draws drawn = .ok r := by
  match t with
  | .number value => exact ⟨_, rfl⟩
  | .variable name =>
    have hname : source.resolves name := by simpa [names, Source.firstUnknown] using h
    obtain ⟨value, hvalue⟩ := Source.resolve_of_resolves hname (draws drawn)
    exact ⟨_, by simp only [eval, hvalue]; rfl⟩
  | .binary op left right =>
    obtain ⟨hl, hr⟩ := Source.firstUnknown_append_eq_none.mp h
    obtain ⟨x, hx⟩ := eval_of_firstUnknown_eq_none left hl draws drawn
    obtain ⟨y, hy⟩ := eval_of_firstUnknown_eq_none right hr draws x.2
    exact ⟨_, by simp only [eval, hx, bind, Except.bind, hy]; rfl⟩
  | .call f arguments =>
    obtain ⟨xs, hxs⟩ := evals_of_firstUnknown_eq_none arguments h draws drawn
    exact ⟨_, by simp only [eval, hxs]; rfl⟩

lemma evals_of_firstUnknown_eq_none (ts : List Tree)
    (h : source.firstUnknown (namesOfAll ts) = none) (draws : Draws) (drawn : Nat) :
    ∃ r, evals source draws ts drawn = .ok r := by
  match ts with
  | [] => exact ⟨_, rfl⟩
  | t :: ts =>
    obtain ⟨ht, hts⟩ := Source.firstUnknown_append_eq_none.mp h
    obtain ⟨x, hx⟩ := eval_of_firstUnknown_eq_none t ht draws drawn
    obtain ⟨xs, hxs⟩ := evals_of_firstUnknown_eq_none ts hts draws x.2
    exact ⟨_, by simp only [evals, hx, bind, Except.bind, hxs]; rfl⟩
end

mutual
lemma eval_of_firstUnknown_eq_some (t : Tree) {name : String}
    (h : source.firstUnknown t.names = some name) (drawn : Nat) :
    t.eval source draws drawn = .error (.unknownVariable name) := by
  match t with
  | .number value => cases h
  | .variable n =>
    obtain ⟨rfl, hn⟩ : n = name ∧ source.resolves n = false := by
      simpa [names, Source.firstUnknown, and_comm] using h
    simp only [eval, Source.resolve_of_not_resolves hn (draws drawn)]
    rfl
  | .binary op left right =>
    rcases Source.firstUnknown_append_eq_some.mp h with hl | ⟨hl, hr⟩
    · simp only [eval, eval_of_firstUnknown_eq_some left hl drawn]
      rfl
    · obtain ⟨x, hx⟩ := eval_of_firstUnknown_eq_none left hl draws drawn
      simp only [eval, hx, bind, Except.bind, eval_of_firstUnknown_eq_some right hr x.2]
  | .call f arguments =>
    simp only [eval, evals_of_firstUnknown_eq_some arguments h drawn]
    rfl

lemma evals_of_firstUnknown_eq_some (ts : List Tree) {name : String}
    (h : source.firstUnknown (namesOfAll ts) = some name) (drawn : Nat) :
    evals source draws ts drawn = .error (.unknownVariable name) := by
  match ts with
  | [] => cases h
  | t :: ts =>
    rcases Source.firstUnknown_append_eq_some.mp h with ht | ⟨ht, hts⟩
    · simp only [evals, eval_of_firstUnknown_eq_some t ht drawn]
      rfl
    · obtain ⟨x, hx⟩ := eval_of_firstUnknown_eq_none t ht draws drawn
      simp only [evals, hx, bind, Except.bind, evals_of_firstUnknown_eq_some ts hts x.2]
end

/-! ### Values -/

/-- The program of a tree evaluates to the value of the tree. -/
lemma evaluate_code (t : Tree) (ht : t.Applicable) (hs : source.check = .ok ())
    (draws : Draws) :
    Program.evaluate ⟨t.code⟩ source draws = (t.eval source draws 0).map (·.1) := by
  have hrun : Machine.initial.run source draws (t.code ++ []) = _ := run_code_append t ht _ []
  rw [List.append_nil] at hrun
  have hne : t.code.isEmpty = false := by simpa using t.code_ne_nil
  simp only [Program.evaluate, hs, Except.bind, hne, Bool.false_eq_true, if_false, hrun]
  change _ = Except.map _ (t.eval source draws Machine.initial.drawn)
  cases t.eval source draws Machine.initial.drawn <;> rfl

/-- A tree and its program agree in value and error, and in a longer program the program of a tree
pushes one number onto whatever the stack holds. -/
theorem evaluate_code_eq_eval (t : Tree) (ht : t.Applicable) (source : Source) (draws : Draws)
    (hs : source.check = .ok ()) :
    Program.evaluate ⟨t.code⟩ source draws = (t.eval source draws 0).map (·.1) ∧
      (source.firstUnknown t.names = none →
        ∃ x, Program.evaluate ⟨t.code⟩ source draws = .ok x) ∧
      (∀ name, source.firstUnknown t.names = some name →
        Program.evaluate ⟨t.code⟩ source draws = .error (.unknownVariable name)) ∧
      ∀ (m : Machine) (rest : List Instruction),
        m.run source draws (t.code ++ rest)
          = (t.eval source draws m.drawn).bind fun (x, drawn) =>
              Machine.run source draws ⟨x :: m.stack, drawn⟩ rest := by
  have heval := evaluate_code t ht hs draws
  refine ⟨heval, ?_, ?_, run_code_append t ht⟩
  · intro h
    obtain ⟨r, hr⟩ := eval_of_firstUnknown_eq_none t h draws 0
    exact ⟨r.1, by rw [heval, hr]; rfl⟩
  · intro name h
    rw [heval, eval_of_firstUnknown_eq_some t h 0]
    rfl

/-- In `pow(x, 2) - z` only `z` has no value. -/
theorem evaluate_power_minus_unknown :
    (binary .sub (call .pow [.variable "x", .number 2]) (.variable "z")).Applicable ∧
      (Source.ofTable [("x", 3)]).check = .ok () ∧
      Program.evaluate ⟨(binary .sub (call .pow [.variable "x", .number 2]) (.variable "z")).code⟩
        (Source.ofTable [("x", 3)]) (Draws.ofSeed 0) = .error (.unknownVariable "z") := by
  have happ : (binary .sub (call .pow [.variable "x", .number 2]) (.variable "z")).Applicable :=
    ⟨⟨rfl, trivial, trivial, trivial⟩, trivial⟩
  have hcheck : (Source.ofTable [("x", 3)]).check = .ok () := by decide
  exact ⟨happ, hcheck,
    (evaluate_code_eq_eval _ happ _ (Draws.ofSeed 0) hcheck).2.2.1 "z" (by decide)⟩

end Tree

end InfixCalc

import InfixCalc.Machine
import InfixCalc.Proofs.Builtin.Application
import InfixCalc.Proofs.Source
import Mathlib.Algebra.Group.Int.Defs

/-!
# Depth of the stack

How many numbers are on the stack can be told from the instructions alone, and an instruction finds
what it takes just if there are enough of them. A program whose instructions all do, and that leaves
one number more than there were, never fails because of the stack.
-/

namespace InfixCalc

/-- How many numbers more, or fewer, are on the stack after a list of instructions. -/
def effect : List Instruction → Int
  | [] => 0
  | i :: code => i.stackEffect + effect code

@[simp] lemma effect_nil : effect [] = 0 := rfl

@[simp] lemma effect_cons (i : Instruction) (code : List Instruction) :
    effect (i :: code) = i.stackEffect + effect code := rfl

@[simp] lemma effect_append (code rest : List Instruction) :
    effect (code ++ rest) = effect code + effect rest := by
  induction code with
  | nil => simp
  | cons i code ih => simp [ih, add_assoc]

/-- Whether an instruction finds what it takes on a stack of some depth. -/
def Instruction.Fits (depth : Int) : Instruction → Prop
  | .number _ => True
  | .variable _ => True
  | .operator _ => 2 ≤ depth
  | .call f n => n ≤ depth ∧ f.arity.accepts n

/-- Whether every instruction fits at the depth that those before it leave. -/
def AllFit (depth : Int) : List Instruction → Prop
  | [] => True
  | i :: code => i.Fits depth ∧ AllFit (depth + i.stackEffect) code

lemma allFit_append {depth : Int} {code rest : List Instruction} :
    AllFit depth (code ++ rest) ↔ AllFit depth code ∧ AllFit (depth + effect code) rest := by
  induction code generalizing depth with
  | nil => simp [AllFit]
  | cons i code ih => simp [AllFit, ih, and_assoc, add_assoc]

lemma allFit_iff {depth : Int} {code : List Instruction} :
    AllFit depth code ↔ ∀ (k : Nat) (i : Instruction),
      code[k]? = some i → i.Fits (depth + effect (code.take k)) := by
  induction code generalizing depth with
  | nil => simp [AllFit]
  | cons i code ih =>
    rw [AllFit, ih]
    constructor
    · rintro ⟨hi, hcode⟩ k j hj
      cases k with
      | zero =>
        obtain rfl : i = j := by simpa using hj
        simpa using hi
      | succ k => simpa [add_assoc] using hcode k j (by simpa using hj)
    · intro h
      refine ⟨by simpa using h 0 i rfl, ?_⟩
      intro k j hj
      simpa [add_assoc] using h (k + 1) j (by simpa using hj)

/-- A program that neither takes more numbers than there are nor leaves more than one. -/
structure StackDisciplined (code : List Instruction) : Prop where
  operator : ∀ (k : Nat) (op : Operator),
    code[k]? = some (.operator op) → 2 ≤ effect (code.take k)
  call : ∀ (k : Nat) (f : Builtin) (n : Nat),
    code[k]? = some (.call f n) → n ≤ effect (code.take k) ∧ f.arity.accepts n
  total : effect code = 1

lemma stackDisciplined_iff {code : List Instruction} :
    StackDisciplined code ↔ AllFit 0 code ∧ effect code = 1 := by
  constructor
  · intro h
    refine ⟨?_, h.total⟩
    rw [allFit_iff]
    intro k i hi
    rw [zero_add]
    cases i with
    | number value => trivial
    | «variable» name => trivial
    | operator op => exact h.operator k op hi
    | call f n => exact h.call k f n hi
  · rintro ⟨hfit, htotal⟩
    have hfits (k : Nat) (i : Instruction) (hi : code[k]? = some i) :
        i.Fits (effect (code.take k)) := by
      simpa using allFit_iff.mp hfit k i hi
    exact ⟨fun k op => hfits k (.operator op), fun k f n => hfits k (.call f n), htotal⟩

/-! ### Runs -/

namespace Machine

variable {source : Source} {draws : Draws} {m m' : Machine}

/-- A call that fits finds arguments of a number that its function takes. -/
lemma length_take_of_fits {f : Builtin} {n : Nat} (h : (Instruction.call f n).Fits m.depth) :
    (m.stack.take n).reverse.length = n := by
  have hn : n ≤ m.stack.length := Int.ofNat_le.mp h.1
  rw [List.length_reverse, List.length_take, Nat.min_eq_left hn]

lemma call_fits_iff {f : Builtin} {n : Nat} :
    (Instruction.call f n).Fits m.depth ↔ (f.arity.accepts n && n ≤ m.depth) = true := by
  rw [Instruction.Fits, Int.ofNat_le, Bool.and_eq_true, decide_eq_true_eq, and_comm]

lemma arguments?_of_fits {f : Builtin} {n : Nat} (h : (Instruction.call f n).Fits m.depth) :
    m.arguments? f n = some (m.stack.take n).reverse :=
  if_pos (call_fits_iff.mp h)

lemma arguments?_of_not_fits {f : Builtin} {n : Nat}
    (h : ¬ (Instruction.call f n).Fits m.depth) : m.arguments? f n = none :=
  if_neg (mt call_fits_iff.mpr h)

lemma step_call_of_fits {f : Builtin} {n : Nat} (h : (Instruction.call f n).Fits m.depth) :
    m.step source draws (.call f n)
      = .ok { m with stack := f.value (m.stack.take n).reverse :: m.stack.drop n } := by
  have happly : f.apply (m.stack.take n).reverse = some (f.value (m.stack.take n).reverse) :=
    Builtin.apply_eq_some (by rw [length_take_of_fits h]; exact h.2)
  rw [step, arguments?_of_fits h, Option.bind_some, happly]

lemma step_call_of_not_fits {f : Builtin} {n : Nat}
    (h : ¬ (Instruction.call f n).Fits m.depth) :
    m.step source draws (.call f n) = .error (.stackImbalance m.depth) := by
  rw [step, arguments?_of_not_fits h, Option.bind_none]

/-- The stack is the reason why an instruction fails just if the instruction does not fit. -/
theorem step_eq_stackImbalance_iff {i : Instruction} :
    (∃ d, m.step source draws i = .error (.stackImbalance d)) ↔ ¬ i.Fits m.depth := by
  cases i with
  | number value => simp [step, Instruction.Fits]
  | «variable» name =>
    cases hname : source.resolve (draws m.drawn) name with
    | ok value => simp [step, Instruction.Fits, hname, Except.map]
    | error e =>
      obtain rfl := Source.eq_unknownVariable_of_resolve hname
      simp [step, Instruction.Fits, hname, Except.map]
  | operator op =>
    obtain ⟨stack, drawn⟩ := m
    rcases stack with _ | ⟨right, _ | ⟨left, rest⟩⟩
    · simp [step, Instruction.Fits, depth]
    · simp [step, Instruction.Fits, depth]
    · simp only [step, Instruction.Fits, depth, reduceCtorEq, exists_false, false_iff, not_not,
        List.length_cons]
      omega
  | call f n =>
    by_cases hfits : (Instruction.call f n).Fits m.depth
    · simp [step_call_of_fits hfits, hfits]
    · exact iff_of_true ⟨m.depth, step_call_of_not_fits hfits⟩ hfits

lemma fits_of_step {i : Instruction} (h : m.step source draws i = .ok m') : i.Fits m.depth := by
  by_contra hfits
  obtain ⟨d, hd⟩ := step_eq_stackImbalance_iff.mpr hfits
  cases h.symm.trans hd

/-- An instruction changes the depth by its effect. -/
lemma depth_of_step {i : Instruction} (h : m.step source draws i = .ok m') :
    (m'.depth : Int) = m.depth + i.stackEffect := by
  have hfits := fits_of_step h
  cases i with
  | number value =>
    cases h
    simp [depth, Instruction.stackEffect]
  | «variable» name =>
    obtain ⟨value, -, rfl⟩ := map_eq_ok_iff.mp h
    simp [depth, Instruction.stackEffect]
  | operator op =>
    obtain ⟨stack, drawn⟩ := m
    rcases stack with _ | ⟨right, _ | ⟨left, rest⟩⟩
    · cases h
    · cases h
    · cases h
      simp only [depth, Instruction.stackEffect, List.length_cons]
      omega
  | call f n =>
    rw [step_call_of_fits hfits] at h
    cases h
    have hn : n ≤ m.stack.length := Int.ofNat_le.mp hfits.1
    simp only [depth, Instruction.stackEffect, List.length_cons, List.length_drop]
    omega

/-- A run changes the depth by the effect of its instructions. -/
theorem depth_of_run {code : List Instruction} (h : m.run source draws code = .ok m') :
    (m'.depth : Int) = m.depth + effect code := by
  induction code generalizing m with
  | nil =>
    cases h
    simp
  | cons i code ih =>
    rw [run_cons] at h
    obtain ⟨next, hstep, hrun⟩ := bind_eq_ok_iff.mp h
    rw [ih hrun, depth_of_step hstep, effect_cons, add_assoc]

/-- Where all instructions fit, none fails because of the stack. -/
theorem run_ne_stackImbalance {code : List Instruction} (h : AllFit m.depth code) (d : Nat) :
    m.run source draws code ≠ .error (.stackImbalance d) := by
  induction code generalizing m with
  | nil => simp
  | cons i code ih =>
    rw [run_cons]
    cases hstep : m.step source draws i with
    | error e =>
      rintro ⟨⟩
      exact step_eq_stackImbalance_iff.mp ⟨d, hstep⟩ h.1
    | ok next =>
      apply ih
      rw [depth_of_step hstep]
      exact h.2

end Machine

/-! ### Evaluation -/

namespace StackDisciplined

variable {code : List Instruction} {source : Source} {draws : Draws}

lemma ne_nil (h : StackDisciplined code) : code ≠ [] := by
  rintro rfl
  cases h.total

/-- When a call is reached, its arguments are there. -/
lemma call_fits (h : StackDisciplined code) {k n : Nat} {f : Builtin} {m : Machine}
    (hcall : code[k]? = some (.call f n))
    (hrun : Machine.initial.run source draws (code.take k) = .ok m) :
    (Instruction.call f n).Fits m.depth := by
  have hdepth : (m.depth : Int) = 0 + effect (code.take k) := Machine.depth_of_run hrun
  rw [hdepth, zero_add]
  exact h.call k f n hcall

/-- A run to the end leaves the value of the program. -/
lemma exists_value (h : StackDisciplined code) {m : Machine}
    (hrun : Machine.initial.run source draws code = .ok m) : ∃ x, m.value = .ok x := by
  have hdepth : (m.depth : Int) = 0 + effect code := Machine.depth_of_run hrun
  rw [h.total] at hdepth
  obtain ⟨x, hx⟩ := List.length_eq_one_iff.mp (Int.ofNat_inj.mp hdepth)
  exact ⟨x, by simp [Machine.value, hx]⟩

end StackDisciplined

/-- If the evaluation of a stack-disciplined program fails because of a stack, this is what the
check of the source has come to, and it is not the stack of the program. -/
theorem Program.evaluate_eq_stackImbalance_iff_check {p : Program}
    (h : p.code = [] ∨ StackDisciplined p.code) (source : Source) (draws : Draws) (d : Nat) :
    p.evaluate source draws = .error (.stackImbalance d) ↔
      source.check = .error (.stackImbalance d) := by
  unfold Program.evaluate
  cases hcheck : source.check with
  | error e => simp only [Except.bind, Except.error.injEq]
  | ok _ =>
    refine iff_of_false ?_ (by rintro ⟨⟩)
    rcases h with hnil | h
    · simp [hnil, Except.bind]
    · have hempty : p.code.isEmpty = false := by simpa using h.ne_nil
      have hfit : AllFit Machine.initial.depth p.code := (stackDisciplined_iff.mp h).1
      simp only [hempty, Except.bind, Bool.false_eq_true, if_false]
      cases hrun : Machine.initial.run source draws p.code with
      | error e =>
        rintro ⟨⟩
        exact Machine.run_ne_stackImbalance hfit d hrun
      | ok m =>
        obtain ⟨x, hx⟩ := h.exists_value hrun
        simp [hx]

end InfixCalc

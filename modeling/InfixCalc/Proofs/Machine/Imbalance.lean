import InfixCalc.Proofs.Machine.Depth

/-!
# Programs of any kind

Instructions in any order make a program. What the stack has to do with the outcome can be told from
the effects of the instructions alone: the first instruction that does not find what it takes, or
else a wrong depth at the end, is where the evaluation fails, with a depth that is known before.
If there is no such place and every name has a value, the program has one as well.

`runNoting` is a run that also notes which functions are applied to which arguments.
-/

namespace InfixCalc

/-- Whether an instruction is the call of a function. -/
def Instruction.isCall : Instruction → Bool
  | .call _ _ => true
  | _ => false

/-- The depth that is reported where an instruction does not fit. -/
def Instruction.reportedDepth (depth : Nat) : Instruction → Nat
  | .operator _ => 0
  | _ => depth

/-- The first place at which a program takes what is not there, or its end if it leaves there what
it should not, with the depth that is reported. All instructions before that place fit. -/
inductive Imbalanced (code : List Instruction) : Nat → Nat → Prop where
  | operator {k : Nat} {op : Operator} (found : code[k]? = some (.operator op))
      (reached : AllFit 0 (code.take k)) (short : effect (code.take k) < 2) :
      Imbalanced code k 0
  | call {k n depth : Nat} {f : Builtin} (found : code[k]? = some (.call f n))
      (reached : AllFit 0 (code.take k)) (current : effect (code.take k) = depth)
      (wrong : f.arity.accepts n = false ∨ depth < n) : Imbalanced code k depth
  | final {depth : Nat} (reached : AllFit 0 code) (left : effect code = depth) (wrong : depth ≠ 1) :
      Imbalanced code code.length depth

/-- Of the instructions of a program all fit, or a first one does not. -/
lemma allFit_or_exists (depth : Int) (code : List Instruction) :
    AllFit depth code ∨ ∃ k i, code[k]? = some i ∧ AllFit depth (code.take k) ∧
      ¬ i.Fits (depth + effect (code.take k)) := by
  induction code generalizing depth with
  | nil => exact .inl trivial
  | cons i code ih =>
    by_cases hi : i.Fits depth
    · rcases ih (depth + i.stackEffect) with hcode | ⟨k, j, hj, hreached, hfits⟩
      · exact .inl ⟨hi, hcode⟩
      · refine .inr ⟨k + 1, j, hj, ⟨hi, hreached⟩, ?_⟩
        rwa [List.take_succ_cons, effect_cons, ← add_assoc]
    · exact .inr ⟨0, i, rfl, trivial, by simpa using hi⟩

lemma Instruction.Fits.nonneg {depth : Int} {i : Instruction} (h : i.Fits depth)
    (hdepth : 0 ≤ depth) : 0 ≤ depth + i.stackEffect := by
  cases i with
  | number _ | «variable» _ =>
    simp only [stackEffect]
    omega
  | operator _ =>
    simp only [Fits] at h
    simp only [stackEffect]
    omega
  | call f n =>
    have hn : (n : Int) ≤ depth := h.1
    simp only [stackEffect]
    omega

lemma AllFit.nonneg {depth : Int} {code : List Instruction} (h : AllFit depth code)
    (hdepth : 0 ≤ depth) : 0 ≤ depth + effect code := by
  induction code generalizing depth with
  | nil => simpa using hdepth
  | cons i code ih =>
    rw [effect_cons, ← add_assoc]
    exact ih h.2 (h.1.nonneg hdepth)

/-- A program is stack-disciplined if there is no place where it is imbalanced. -/
theorem imbalanced_or_stackDisciplined (code : List Instruction) :
    (∃ k depth, Imbalanced code k depth) ∨ StackDisciplined code := by
  have hnat (ks : List Instruction) (h : AllFit 0 ks) : ∃ depth : Nat, effect ks = depth := by
    have hnonneg := h.nonneg (Int.le_refl 0)
    rw [zero_add] at hnonneg
    exact ⟨_, (Int.toNat_of_nonneg hnonneg).symm⟩
  rcases allFit_or_exists 0 code with hfit | ⟨k, i, found, reached, hfits⟩
  · obtain ⟨depth, hdepth⟩ := hnat code hfit
    by_cases hone : depth = 1
    · subst hone
      exact .inr (stackDisciplined_iff.mpr ⟨hfit, hdepth⟩)
    · exact .inl ⟨_, depth, .final hfit hdepth hone⟩
  · left
    obtain ⟨depth, hdepth⟩ := hnat _ reached
    rw [zero_add] at hfits
    cases i with
    | number _ | «variable» _ => exact absurd trivial hfits
    | operator op => exact ⟨k, 0, .operator found reached (Int.not_le.mp hfits)⟩
    | call f n =>
      refine ⟨k, depth, .call found reached hdepth ?_⟩
      rw [Instruction.Fits, hdepth, Int.ofNat_le, not_and_or, Nat.not_le, Bool.not_eq_true] at hfits
      exact hfits.symm

namespace Machine

variable {source : Source} {draws : Draws} {m m' : Machine} {i : Instruction}
  {code : List Instruction}

/-! ### Applied functions -/

/-- The function that an instruction applies, with its arguments. -/
def applied (m : Machine) : Instruction → List (Builtin × List Float)
  | .call function count => ((m.arguments? function count).map (function, ·)).toList
  | _ => []

/-- Carry out a list of instructions, and note the functions that are applied. -/
def runNoting (source : Source) (draws : Draws) (m : Machine) :
    List Instruction → List (Builtin × List Float) × Except EvaluationError Machine
  | [] => ([], .ok m)
  | i :: code =>
    match m.step source draws i with
    | .ok next =>
      (m.applied i ++ (next.runNoting source draws code).1, (next.runNoting source draws code).2)
    | .error e => (m.applied i, .error e)

/-- What is noted changes nothing. -/
theorem snd_runNoting (m : Machine) (code : List Instruction) :
    (m.runNoting source draws code).2 = m.run source draws code := by
  induction code generalizing m with
  | nil => rfl
  | cons i code ih =>
    rw [run_cons, runNoting]
    cases m.step source draws i with
    | error e => rfl
    | ok next => exact ih next

/-- The calls that applied some functions to as many arguments. -/
def calls (noted : List (Builtin × List Float)) : List Instruction :=
  noted.map fun (f, xs) => .call f xs.length

lemma calls_singleton (f : Builtin) (xs : List Float) :
    calls [(f, xs)] = [.call f xs.length] := rfl

lemma calls_append (noted later : List (Builtin × List Float)) :
    calls (noted ++ later) = calls noted ++ calls later :=
  List.map_append

/-! ### Instructions that fit -/

lemma exists_step (hfits : i.Fits m.depth)
    (hresolves : ∀ name, i = .variable name → source.resolves name) (draws : Draws) :
    ∃ next, m.step source draws i = .ok next := by
  cases i with
  | number value => exact ⟨_, rfl⟩
  | «variable» name =>
    obtain ⟨value, hvalue⟩ := Source.resolve_of_resolves (hresolves name rfl) (draws m.drawn)
    exact ⟨_, map_eq_ok_iff.mpr ⟨value, hvalue, rfl⟩⟩
  | operator op =>
    obtain ⟨_ | ⟨right, _ | ⟨left, rest⟩⟩, drawn⟩ := m
    · simp [Instruction.Fits, depth] at hfits
    · simp [Instruction.Fits, depth] at hfits
    · exact ⟨_, rfl⟩
  | call f n => exact ⟨_, step_call_of_fits hfits⟩

/-- An instruction that fits applies a function if it is a call. -/
lemma calls_applied (hfits : i.Fits m.depth) :
    calls (m.applied i) = [i].filter Instruction.isCall := by
  cases i with
  | number _ | «variable» _ | operator _ => rfl
  | call f n =>
    rw [applied, arguments?_of_fits hfits, Option.map_some, Option.toList_some, calls_singleton,
      length_take_of_fits hfits]
    rfl

/-- An instruction that does not fit applies no function. -/
lemma applied_of_not_fits (hfits : ¬ i.Fits m.depth) : m.applied i = [] := by
  cases i with
  | number _ | «variable» _ | operator _ => rfl
  | call f n => rw [applied, arguments?_of_not_fits hfits, Option.map_none, Option.toList_none]

/-- An instruction that does not fit fails. -/
lemma step_of_not_fits (hfits : ¬ i.Fits m.depth) :
    m.step source draws i = .error (.stackImbalance (i.reportedDepth m.depth)) := by
  cases i with
  | number _ | «variable» _ => exact absurd trivial hfits
  | operator op =>
    obtain ⟨_ | ⟨right, _ | ⟨left, rest⟩⟩, drawn⟩ := m
    · rfl
    · rfl
    · simp only [Instruction.Fits, depth, List.length_cons] at hfits
      omega
  | call f n => exact step_call_of_not_fits hfits

/-! ### Runs -/

lemma allFit_of_run (h : m.run source draws code = .ok m') : AllFit m.depth code := by
  induction code generalizing m with
  | nil => trivial
  | cons i code ih =>
    obtain ⟨next, hstep, hrun⟩ := bind_eq_ok_iff.mp h
    have hnext := ih hrun
    rw [depth_of_step hstep] at hnext
    exact ⟨fits_of_step hstep, hnext⟩

/-- A program all of whose instructions fit is carried out. -/
theorem exists_run (m : Machine) (hfit : AllFit m.depth code)
    (hresolves : ∀ name, .variable name ∈ code → source.resolves name) (draws : Draws) :
    ∃ last, m.run source draws code = .ok last := by
  induction code generalizing m with
  | nil => exact ⟨m, rfl⟩
  | cons i code ih =>
    obtain ⟨next, hstep⟩ := exists_step hfit.1
      (fun name hname => hresolves name (hname ▸ List.mem_cons_self)) draws
    have hrest : AllFit next.depth code := by
      rw [depth_of_step hstep]
      exact hfit.2
    obtain ⟨last, hrun⟩ := ih next hrest fun name hname =>
      hresolves name (List.mem_cons_of_mem i hname)
    exact ⟨last, bind_eq_ok_iff.mpr ⟨next, hstep, hrun⟩⟩

lemma runNoting_cons (h : m.step source draws i = .ok m') (code : List Instruction) :
    m.runNoting source draws (i :: code)
      = (m.applied i ++ (m'.runNoting source draws code).1,
          (m'.runNoting source draws code).2) := by
  rw [runNoting, h]

lemma runNoting_append (h : m.run source draws code = .ok m') (rest : List Instruction) :
    m.runNoting source draws (code ++ rest)
      = ((m.runNoting source draws code).1 ++ (m'.runNoting source draws rest).1,
          (m'.runNoting source draws rest).2) := by
  induction code generalizing m with
  | nil =>
    cases h
    rfl
  | cons i code ih =>
    obtain ⟨next, hstep, hrun⟩ := bind_eq_ok_iff.mp h
    rw [List.cons_append, runNoting_cons hstep, runNoting_cons hstep, ih hrun, List.append_assoc]

/-- The calls of a program that is carried out are all that is noted. -/
theorem calls_runNoting (h : m.run source draws code = .ok m') :
    calls (m.runNoting source draws code).1 = code.filter Instruction.isCall := by
  induction code generalizing m with
  | nil => rfl
  | cons i code ih =>
    obtain ⟨next, hstep, hrun⟩ := bind_eq_ok_iff.mp h
    rw [runNoting_cons hstep, calls_append, calls_applied (fits_of_step hstep), ih hrun,
      ← List.filter_append, List.singleton_append]

lemma value_of_depth_ne_one (h : m.depth ≠ 1) : m.value = .error (.stackImbalance m.depth) := by
  obtain ⟨_ | ⟨x, _ | ⟨y, rest⟩⟩, drawn⟩ := m
  · rfl
  · exact absurd rfl h
  · rfl

/-- Where an instruction that is reached does not fit, the functions that have been applied are
those of the calls before it. -/
theorem run_of_not_fits {k : Nat} (found : code[k]? = some i)
    (reached : AllFit 0 (code.take k)) (hfits : ¬ i.Fits (effect (code.take k)))
    (hresolves : ∀ name, .variable name ∈ code → source.resolves name) (draws : Draws) :
    ∃ depth : Nat, effect (code.take k) = depth ∧
      initial.run source draws code = .error (.stackImbalance (i.reportedDepth depth)) ∧
      calls (initial.runNoting source draws code).1
        = (code.take k).filter Instruction.isCall := by
  obtain ⟨hk, rfl⟩ := List.getElem?_eq_some_iff.mp found
  obtain ⟨next, hrun⟩ := exists_run initial reached
    (fun name hname => hresolves name (List.mem_of_mem_take hname)) draws
  have hdepth : (next.depth : Int) = 0 + effect (code.take k) := depth_of_run hrun
  rw [zero_add] at hdepth
  rw [← hdepth] at hfits
  -- What is left of the program begins with the instruction that does not fit.
  have happend := runNoting_append hrun (code.drop k)
  rw [List.take_append_drop, ← List.getElem_cons_drop hk, runNoting, step_of_not_fits hfits,
    applied_of_not_fits hfits, List.append_nil] at happend
  refine ⟨next.depth, hdepth.symm, ?_, ?_⟩
  · rw [← snd_runNoting, happend]
  · rw [happend]
    exact calls_runNoting hrun

end Machine

/-! ### Evaluation -/

namespace Program

variable {p : Program} {source : Source} {draws : Draws}

lemma evaluate_of_check (hne : p.code ≠ []) (hcheck : source.check = .ok ()) :
    p.evaluate source draws = (Machine.initial.run source draws p.code).bind Machine.value := by
  rw [evaluate, hcheck, List.isEmpty_eq_false_iff.mpr hne]
  rfl

/-- A program that is imbalanced somewhere fails for this, and has applied the functions of the
calls before that place and no others. -/
theorem evaluate_of_imbalanced (hne : p.code ≠ []) (hcheck : source.check = .ok ())
    (hresolves : ∀ name, .variable name ∈ p.code → source.resolves name) {k depth : Nat}
    (h : Imbalanced p.code k depth) :
    p.evaluate source draws = .error (.stackImbalance depth) ∧
      Machine.calls (Machine.initial.runNoting source draws p.code).1
        = (p.code.take k).filter Instruction.isCall := by
  rw [evaluate_of_check hne hcheck]
  cases h with
  | @operator _ op found reached short =>
    have hfits : ¬ (Instruction.operator op).Fits (effect (p.code.take k)) := Int.not_le.mpr short
    obtain ⟨depth, -, hrun, hcalls⟩ := Machine.run_of_not_fits found reached hfits hresolves draws
    rw [hrun]
    exact ⟨rfl, hcalls⟩
  | @call _ n _ f found reached current wrong =>
    have hfits : ¬ (Instruction.call f n).Fits (effect (p.code.take k)) := by
      rw [current]
      rintro ⟨hn, haccepts⟩
      rcases wrong with hfalse | hlt
      · rw [hfalse] at haccepts
        cases haccepts
      · exact Nat.not_lt.mpr (Int.ofNat_le.mp hn) hlt
    obtain ⟨depth', hdepth, hrun, hcalls⟩ :=
      Machine.run_of_not_fits found reached hfits hresolves draws
    obtain rfl : depth = depth' := Int.ofNat_inj.mp (current.symm.trans hdepth)
    rw [hrun]
    exact ⟨rfl, hcalls⟩
  | final reached left wrong =>
    obtain ⟨last, hrun⟩ := Machine.exists_run .initial reached hresolves draws
    have hdepth : (last.depth : Int) = 0 + effect p.code := Machine.depth_of_run hrun
    rw [zero_add, left, Int.ofNat_inj] at hdepth
    subst hdepth
    rw [hrun, List.take_length]
    exact ⟨Machine.value_of_depth_ne_one wrong, Machine.calls_runNoting hrun⟩

/-- A program that is imbalanced nowhere has a value if all its names have one. -/
lemma exists_value_of_stackDisciplined (h : StackDisciplined p.code)
    (hcheck : source.check = .ok ())
    (hresolves : ∀ name, .variable name ∈ p.code → source.resolves name) (draws : Draws) :
    ∃ x, p.evaluate source draws = .ok x := by
  have hfit : AllFit Machine.initial.depth p.code := (stackDisciplined_iff.mp h).1
  obtain ⟨last, hrun⟩ := Machine.exists_run .initial hfit hresolves draws
  obtain ⟨x, hx⟩ := h.exists_value hrun
  refine ⟨x, ?_⟩
  rw [evaluate_of_check h.ne_nil hcheck, hrun]
  exact hx

/-- The outcome of a program that is not empty and whose names have values. It fails just if it is
imbalanced somewhere, with the depth that is reported there, and the functions that are applied are
those of the calls before that place. Otherwise it has a value. Its first instructions are carried
out just if they fit, and leave as many numbers as their effects come to. -/
theorem evaluate_eq_stackImbalance_iff (hne : p.code ≠ []) (hcheck : source.check = .ok ())
    (hresolves : ∀ name, .variable name ∈ p.code → source.resolves name) (draws : Draws) :
    (∀ depth, p.evaluate source draws = .error (.stackImbalance depth) ↔
        ∃ k, Imbalanced p.code k depth) ∧
      (∀ k depth, Imbalanced p.code k depth →
        Machine.calls (Machine.initial.runNoting source draws p.code).1
          = (p.code.take k).filter Instruction.isCall) ∧
      ((∀ k depth, ¬ Imbalanced p.code k depth) → ∃ x, p.evaluate source draws = .ok x) ∧
      ∀ k, AllFit 0 (p.code.take k) ↔ ∃ m : Machine,
        Machine.initial.run source draws (p.code.take k) = .ok m ∧
          (m.depth : Int) = effect (p.code.take k) := by
  refine ⟨?_, ?_, ?_, ?_⟩
  · intro depth
    constructor
    · intro h
      rcases imbalanced_or_stackDisciplined p.code with ⟨k, depth', himbalanced⟩ | hdisciplined
      · rw [(evaluate_of_imbalanced hne hcheck hresolves himbalanced).1] at h
        cases h
        exact ⟨k, himbalanced⟩
      · rw [evaluate_eq_stackImbalance_iff_check (.inr hdisciplined), hcheck] at h
        cases h
    · rintro ⟨k, himbalanced⟩
      exact (evaluate_of_imbalanced hne hcheck hresolves himbalanced).1
  · intro k depth himbalanced
    exact (evaluate_of_imbalanced hne hcheck hresolves himbalanced).2
  · intro hnone
    rcases imbalanced_or_stackDisciplined p.code with ⟨k, depth, himbalanced⟩ | hdisciplined
    · exact absurd himbalanced (hnone k depth)
    · exact exists_value_of_stackDisciplined hdisciplined hcheck hresolves draws
  · intro k
    constructor
    · intro hfit
      obtain ⟨m, hrun⟩ := Machine.exists_run .initial hfit
        (fun name hname => hresolves name (List.mem_of_mem_take hname)) draws
      exact ⟨m, hrun, (Machine.depth_of_run hrun).trans (zero_add _)⟩
    · rintro ⟨m, hrun, -⟩
      exact Machine.allFit_of_run hrun

/-- In `2 x pow/2 pow/2` the second call finds one number only, and `pow` is applied once. -/
theorem evaluate_twicePow_imbalanced :
    let p : Program := ⟨[.number 2, .variable "x", .call .pow 2, .call .pow 2]⟩
    let source := Source.ofTable [("x", 3)]
    p.code ≠ [] ∧ source.check = .ok () ∧
      (∀ name, .variable name ∈ p.code → source.resolves name) ∧
      p.evaluate source (.ofSeed 0) = .error (.stackImbalance 1) ∧
      Machine.calls (Machine.initial.runNoting source (.ofSeed 0) p.code).1 = [.call .pow 2] := by
  intro p source
  have hne : p.code ≠ [] := List.cons_ne_nil _ _
  have hcheck : source.check = .ok () := by decide
  have hresolves : ∀ name, .variable name ∈ p.code → source.resolves name := by
    intro name hname
    obtain rfl : name = "x" := by simpa [p] using hname
    decide
  have himbalanced : Imbalanced p.code 3 1 :=
    .call rfl ⟨trivial, trivial, ⟨by decide, rfl⟩, trivial⟩ rfl (.inr (by decide))
  obtain ⟨houtcome, happlied, -⟩ :=
    evaluate_eq_stackImbalance_iff hne hcheck hresolves (.ofSeed 0)
  exact ⟨hne, hcheck, hresolves, (houtcome 1).mpr ⟨3, himbalanced⟩, happlied 3 1 himbalanced⟩

end Program

end InfixCalc

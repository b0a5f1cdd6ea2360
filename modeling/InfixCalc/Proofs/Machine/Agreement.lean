import InfixCalc.Machine
import InfixCalc.Proofs.Except

/-!
# Sources that agree

A machine asks its source for the free variables of the instructions that it carries out, and for
nothing else. So two sources that pass their checks and agree on the free variables of a program
lead to the same value, or to the same error.
-/

namespace InfixCalc

variable {a b : Source} {draws : Draws}

lemma Source.resolve_congr {name : String}
    (h : Constant.ofName? name = none → a.get? name = b.get? name) (draw : Float) :
    a.resolve draw name = b.resolve draw name := by
  unfold Source.resolve
  cases hname : Constant.ofName? name with
  | some constant => rfl
  | none => rw [h hname]

namespace Machine

/-- An instruction has the same effect with two sources that agree on its free variable. -/
lemma step_congr {i : Instruction}
    (h : ∀ name, i.free? = some name → a.get? name = b.get? name) (m : Machine) :
    m.step a draws i = m.step b draws i := by
  cases i with
  | number value => rfl
  | «variable» name =>
    have hname : a.resolve (draws m.drawn) name = b.resolve (draws m.drawn) name := by
      apply Source.resolve_congr
      intro hconstant
      apply h
      rw [Instruction.free?, hconstant]
      rfl
    rw [step, step, hname]
  | operator op => rfl
  | call f n => rfl

/-- A run is the same with two sources that agree on the free variables of its instructions. -/
theorem run_congr {code : List Instruction}
    (h : ∀ name ∈ code.filterMap Instruction.free?, a.get? name = b.get? name) (m : Machine) :
    m.run a draws code = m.run b draws code := by
  induction code generalizing m with
  | nil => rfl
  | cons i code ih =>
    have hstep : m.step a draws i = m.step b draws i := by
      apply step_congr
      intro name hname
      exact h name (List.mem_filterMap.mpr ⟨i, List.mem_cons_self, hname⟩)
    have hrun : ∀ next : Machine, next.run a draws code = next.run b draws code := by
      intro next
      apply ih
      intro name hname
      obtain ⟨j, hj, hfree⟩ := List.mem_filterMap.mp hname
      exact h name (List.mem_filterMap.mpr ⟨j, List.mem_cons_of_mem i hj, hfree⟩)
    rw [run_cons, run_cons, hstep]
    exact congrArg _ (funext hrun)

/-! ### Random numbers -/

variable {draws' : Draws}

/-- An instruction that uses up no random number does not depend on them. -/
lemma step_eq_of_draws_eq_false {i : Instruction} (h : i.draws = false) (m : Machine) :
    m.step a draws i = m.step a draws' i := by
  cases i with
  | «variable» name =>
    have hname : a.resolve (draws m.drawn) name = a.resolve (draws' m.drawn) name := by
      unfold Source.resolve
      rcases hconstant : Constant.ofName? name with _ | _ | _ | _
      · rfl
      · rfl
      · rfl
      · simp [Instruction.draws, hconstant] at h
    rw [step, step, hname]
  | number value => rfl
  | operator op => rfl
  | call f n => rfl

/-- A run that uses up no random numbers does not depend on them. -/
theorem run_eq_of_draws_eq_false {code : List Instruction} (h : ∀ i ∈ code, i.draws = false)
    (m : Machine) : m.run a draws code = m.run a draws' code := by
  induction code generalizing m with
  | nil => rfl
  | cons i code ih =>
    obtain ⟨hi, hcode⟩ := List.forall_mem_cons.mp h
    rw [run_cons, run_cons, step_eq_of_draws_eq_false hi]
    exact congrArg _ (funext (ih hcode))

variable {m m' : Machine}

/-- An instruction that uses up no random number leaves their count. -/
lemma drawn_step {i : Instruction} (h : i.draws = false)
    (hstep : m.step a draws i = .ok m') : m'.drawn = m.drawn := by
  cases i with
  | number value =>
    cases hstep
    rfl
  | «variable» name =>
    obtain ⟨value, -, rfl⟩ := map_eq_ok_iff.mp hstep
    exact if_neg (Bool.eq_false_iff.mp h)
  | operator op =>
    simp only [step] at hstep
    split at hstep <;> cases hstep
    rfl
  | call f n =>
    simp only [step] at hstep
    split at hstep <;> cases hstep
    rfl

lemma drawn_run {code : List Instruction} (h : ∀ i ∈ code, i.draws = false)
    (hrun : m.run a draws code = .ok m') : m'.drawn = m.drawn := by
  induction code generalizing m with
  | nil =>
    cases hrun
    rfl
  | cons i code ih =>
    obtain ⟨hi, hcode⟩ := List.forall_mem_cons.mp h
    rw [run_cons] at hrun
    obtain ⟨m₁, hstep, hrun⟩ := bind_eq_ok_iff.mp hrun
    rw [ih hcode hrun, drawn_step hi hstep]

end Machine

/-- Two sources that agree on the free variables of a program give it the same value. -/
theorem Program.evaluate_congr {p : Program} (ha : a.check = .ok ()) (hb : b.check = .ok ())
    (h : ∀ name ∈ p.freeVariables, a.get? name = b.get? name) :
    p.evaluate a draws = p.evaluate b draws := by
  have hrun : Machine.initial.run a draws p.code = Machine.initial.run b draws p.code := by
    apply Machine.run_congr
    intro name hname
    exact h name (List.mem_eraseDups.mpr hname)
  rw [evaluate, evaluate, ha, hb, hrun]

lemma Program.drawCount_eq_zero_iff {p : Program} :
    p.drawCount = 0 ↔ ∀ i ∈ p.code, i.draws = false := by
  simp only [drawCount, List.countP_eq_zero, Bool.not_eq_true]

/-- The value of a program that uses up no random numbers does not depend on them. -/
theorem Program.evaluate_eq_of_drawCount_eq_zero {p : Program} (h : p.drawCount = 0)
    (source : Source) (draws draws' : Draws) :
    p.evaluate source draws = p.evaluate source draws' := by
  have hcode := Program.drawCount_eq_zero_iff.mp h
  rw [evaluate, evaluate, Machine.run_eq_of_draws_eq_false hcode]

end InfixCalc

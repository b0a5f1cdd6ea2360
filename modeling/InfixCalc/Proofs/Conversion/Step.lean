import InfixCalc.Conversion
import InfixCalc.Proofs.Except

/-!
# Steps of a conversion

`Step c w c'` lists what reading a word can do to a conversion, one case for each kind of word, with
all that has to be the case for it. `read_eq_ok_iff` says that the list is complete, so that a fact
about every state of a conversion is proved by going through the cases of `Step`, and one about a
whole statement by `consume_cons_eq_none_iff` and induction.
-/

namespace InfixCalc

namespace Phase

variable {phase next : Phase}

lemma next_operator_eq_ok_iff {op : Operator} :
    phase.next (.operator op) = .ok next ↔
      (phase = .afterOperand ∨ phase.allowsSign ∧ op.isSign) ∧ next = .afterOperator := by
  cases phase <;> cases hop : op.isSign <;>
    simp [Phase.next, Phase.endsOperand, Phase.allowsSign, hop, eq_comm]

lemma next_opening_eq_ok_iff :
    phase.next .opening = .ok next ↔ phase ≠ .afterOperand ∧ next = .afterOpening := by
  cases phase <;> simp [Phase.next, eq_comm]

lemma next_operand_eq_ok_iff :
    phase.next .operand = .ok next ↔ phase ≠ .afterOperand ∧ next = .afterOperand := by
  cases phase <;> simp [Phase.next, eq_comm]

lemma next_closing_eq_ok_iff :
    phase.next .closing = .ok next ↔ phase = .afterOperand ∧ next = .afterOperand := by
  cases phase <;> simp [Phase.next, eq_comm]

lemma next_comma_eq_ok_iff :
    phase.next .comma = .ok next ↔ phase = .afterOperand ∧ next = .start := by
  cases phase <;> simp [Phase.next, eq_comm]

lemma ne_afterOperand_of_allowsSign (h : phase.allowsSign) : phase ≠ .afterOperand := by
  rintro rfl
  cases h

end Phase

/-- A call with at least one argument can end if its function takes so many. -/
lemma Group.ending_call_eq_ok_iff {f : Builtin} {n start : Nat} {code : List Instruction}
    (hn : 1 ≤ n) :
    Group.ending ⟨some f, n, start⟩ = .ok code ↔ f.arity.accepts n ∧ code = [.call f n] := by
  unfold Group.ending
  cases hf : f.arity with
  | exact count =>
    by_cases hcount : count = n
    · simp [hf, Arity.accepts, hcount, eq_comm]
    · simp [hf, Arity.accepts, hcount, Ne.symm hcount]
  | variadic => simp [hf, Arity.accepts, hn, eq_comm]

namespace Conversion

/-- What reading a word without a fault does. -/
inductive Step (c : Conversion) : Word → Conversion → Prop where
  | operator {op : Operator} {start : Nat} {phase : Phase}
      (hnext : c.phase.next (.operator op) = .ok phase) :
      Step c ⟨.operator op, start⟩ ({ c with phase }.receive op c.phase.allowsSign)
  | opening {start : Nat} (hphase : c.phase ≠ .afterOperand) :
      Step c ⟨.opening, start⟩ ({ c with phase := .afterOpening }.enter none start)
  | closing {start : Nat} {waiting : List Waiting} {group : Group} {groups : List Group}
      {code : List Instruction} (hphase : c.phase = .afterOperand)
      (hwaiting : c.drain.waiting = .mark :: waiting) (hgroups : c.groups = group :: groups)
      (hending : group.ending = .ok code) :
      Step c ⟨.closing, start⟩ ({ c.drain with waiting, groups }.emit code)
  | comma {start begun openAt : Nat} {f : Builtin} {groups : List Group}
      (hphase : c.phase = .afterOperand)
      (hgroups : c.groups = ⟨some f, begun, openAt⟩ :: groups) :
      Step c ⟨.comma, start⟩
        { c.drain with phase := .start, groups := ⟨some f, begun + 1, openAt⟩ :: groups }
  | number {value : Float} {start : Nat} (hphase : c.phase ≠ .afterOperand) :
      Step c ⟨.number value, start⟩ ({ c with phase := .afterOperand }.emit [.number value])
  | variable {name : String} {start : Nat} (hphase : c.phase ≠ .afterOperand) :
      Step c ⟨.variable name, start⟩ ({ c with phase := .afterOperand }.emit [.variable name])
  | call {f : Builtin} {start openAt : Nat} (hphase : c.phase ≠ .afterOperand) :
      Step c ⟨.call f openAt, start⟩
        ({ c with phase := .afterOpening }.enter (some f) openAt)

variable {c c' : Conversion}

lemma pass_eq_ok_iff {t : Terminal} {start : Nat} :
    c.pass t start = .ok c' ↔ ∃ phase, c.phase.next t = .ok phase ∧ { c with phase } = c' := by
  cases hc : c.phase.next t <;> simp [pass, hc]

lemma pass_opening_eq_ok_iff {start : Nat} :
    c.pass .opening start = .ok c' ↔
      c.phase ≠ .afterOperand ∧ { c with phase := .afterOpening } = c' := by
  simp [pass_eq_ok_iff, Phase.next_opening_eq_ok_iff]

lemma pass_operand_eq_ok_iff {start : Nat} :
    c.pass .operand start = .ok c' ↔
      c.phase ≠ .afterOperand ∧ { c with phase := .afterOperand } = c' := by
  simp [pass_eq_ok_iff, Phase.next_operand_eq_ok_iff]

lemma pass_comma_eq_ok_iff {start : Nat} :
    c.pass .comma start = .ok c' ↔ c.phase = .afterOperand ∧ { c with phase := .start } = c' := by
  simp [pass_eq_ok_iff, Phase.next_comma_eq_ok_iff]

/-- A closing parenthesis stands after an operand and leaves it at that. -/
lemma pass_closing_eq_ok_iff {start : Nat} :
    c.pass .closing start = .ok c' ↔ c.phase = .afterOperand ∧ c = c' := by
  obtain ⟨emitted, waiting, groups, phase, noted⟩ := c
  simp only [pass_eq_ok_iff, Phase.next_closing_eq_ok_iff]
  constructor
  · rintro ⟨_, ⟨rfl, rfl⟩, rfl⟩
    exact ⟨rfl, rfl⟩
  · rintro ⟨rfl, rfl⟩
    exact ⟨_, ⟨rfl, rfl⟩, rfl⟩

lemma leave_eq_ok_iff {start : Nat} :
    c.leave start = .ok c' ↔ ∃ waiting group groups code, c.drain.waiting = .mark :: waiting ∧
      c.groups = group :: groups ∧ group.ending = .ok code ∧
        { c.drain with waiting, groups }.emit code = c' := by
  unfold leave
  split
  case h_1 waiting group groups hwaiting hgroups =>
    cases hending : group.ending <;> simp [hwaiting, hgroups, hending]
  case h_2 hnone =>
    constructor
    · intro h
      cases h
    · rintro ⟨waiting, group, groups, code, hwaiting, hgroups, -⟩
      exact absurd hgroups (hnone waiting group groups hwaiting)

lemma beginArgument_eq_ok_iff {start : Nat} :
    c.beginArgument start = .ok c' ↔ ∃ f begun openAt groups,
      c.groups = ⟨some f, begun, openAt⟩ :: groups ∧
        { c.drain with groups := ⟨some f, begun + 1, openAt⟩ :: groups } = c' := by
  unfold beginArgument
  split
  case h_1 f begun openAt groups hgroups => simp [hgroups]
  case h_2 hnone =>
    constructor
    · intro h
      cases h
    · rintro ⟨f, begun, openAt, groups, hgroups, -⟩
      exact absurd hgroups (hnone f begun openAt groups)

/-- The cases of `Step` are all that reading a word can do. -/
theorem read_eq_ok_iff {w : Word} : c.read w = .ok c' ↔ Step c w c' := by
  constructor
  · intro h
    obtain ⟨meaning, start⟩ := w
    cases meaning with
    | operator op =>
      obtain ⟨_, hpass, rfl⟩ := map_eq_ok_iff.mp h
      obtain ⟨phase, hnext, rfl⟩ := pass_eq_ok_iff.mp hpass
      exact .operator hnext
    | opening =>
      obtain ⟨_, hpass, rfl⟩ := map_eq_ok_iff.mp h
      obtain ⟨hphase, rfl⟩ := pass_opening_eq_ok_iff.mp hpass
      exact .opening hphase
    | closing =>
      obtain ⟨_, hpass, hleave⟩ := bind_eq_ok_iff.mp h
      obtain ⟨hphase, rfl⟩ := pass_closing_eq_ok_iff.mp hpass
      obtain ⟨waiting, group, groups, code, hw, hg, he, rfl⟩ := leave_eq_ok_iff.mp hleave
      exact .closing hphase hw hg he
    | comma =>
      obtain ⟨_, hpass, hbegin⟩ := bind_eq_ok_iff.mp h
      obtain ⟨hphase, rfl⟩ := pass_comma_eq_ok_iff.mp hpass
      obtain ⟨f, begun, openAt, groups, hg, rfl⟩ := beginArgument_eq_ok_iff.mp hbegin
      exact .comma hphase hg
    | number value =>
      obtain ⟨_, hpass, rfl⟩ := map_eq_ok_iff.mp h
      obtain ⟨hphase, rfl⟩ := pass_operand_eq_ok_iff.mp hpass
      exact .number hphase
    | «variable» name =>
      obtain ⟨_, hpass, rfl⟩ := map_eq_ok_iff.mp h
      obtain ⟨hphase, rfl⟩ := pass_operand_eq_ok_iff.mp hpass
      exact .variable hphase
    | call f openAt =>
      obtain ⟨_, hpass, rfl⟩ := map_eq_ok_iff.mp h
      obtain ⟨hphase, rfl⟩ := pass_operand_eq_ok_iff.mp hpass
      exact .call hphase
    | bare f =>
      obtain ⟨_, -, hbare⟩ := bind_eq_ok_iff.mp h
      cases hbare
    | unreadable literal =>
      obtain ⟨_, -, hunreadable⟩ := bind_eq_ok_iff.mp h
      cases hunreadable
    | illegal found => cases h
  · intro h
    cases h with
    | operator hnext => exact map_eq_ok_iff.mpr ⟨_, pass_eq_ok_iff.mpr ⟨_, hnext, rfl⟩, rfl⟩
    | opening hphase =>
      exact map_eq_ok_iff.mpr ⟨_, pass_opening_eq_ok_iff.mpr ⟨hphase, rfl⟩, rfl⟩
    | closing hphase hwaiting hgroups hending =>
      exact bind_eq_ok_iff.mpr ⟨c, pass_closing_eq_ok_iff.mpr ⟨hphase, rfl⟩,
        leave_eq_ok_iff.mpr ⟨_, _, _, _, hwaiting, hgroups, hending, rfl⟩⟩
    | comma hphase hgroups =>
      exact bind_eq_ok_iff.mpr ⟨_, pass_comma_eq_ok_iff.mpr ⟨hphase, rfl⟩,
        beginArgument_eq_ok_iff.mpr ⟨_, _, _, _, hgroups, rfl⟩⟩
    | number hphase =>
      exact map_eq_ok_iff.mpr ⟨_, pass_operand_eq_ok_iff.mpr ⟨hphase, rfl⟩, rfl⟩
    | «variable» hphase =>
      exact map_eq_ok_iff.mpr ⟨_, pass_operand_eq_ok_iff.mpr ⟨hphase, rfl⟩, rfl⟩
    | call hphase =>
      exact map_eq_ok_iff.mpr ⟨_, pass_operand_eq_ok_iff.mpr ⟨hphase, rfl⟩, rfl⟩

@[simp] lemma groups_receive (op : Operator) (isSign : Bool) :
    (c.receive op isSign).groups = c.groups := by
  cases isSign <;> rfl

@[simp] lemma phase_receive (op : Operator) (isSign : Bool) :
    (c.receive op isSign).phase = c.phase := by
  cases isSign <;> rfl

/-- A list of words is read without a fault if each of its words is. -/
lemma consume_cons_eq_none_iff {w : Word} {ws : List Word} :
    c.consume (w :: ws) = (c', none) ↔ ∃ next, Step c w next ∧ next.consume ws = (c', none) := by
  simp only [consume, ← read_eq_ok_iff]
  cases c.read w <;> simp

end Conversion

end InfixCalc

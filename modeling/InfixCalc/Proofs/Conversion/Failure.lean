import InfixCalc.Proofs.Conversion.Step

/-!
# Failures of a conversion

`Fails c w fault` lists the ways in which reading a word can fail, one case for each, with what has
to be the case for it. A list of words fails at its first word that cannot be read, and a statement
that is read to its end can still fail because something is missing.
-/

namespace InfixCalc

namespace Phase

variable {phase : Phase} {cause : Cause}

lemma next_operator_eq_error_iff {op : Operator} :
    phase.next (.operator op) = .error cause ↔
      (phase = .afterOperator ∨ phase.allowsSign ∧ op.isSign = false) ∧
        cause = .unexpectedOperator op.symbol := by
  cases phase <;> cases hop : op.isSign <;>
    simp [Phase.next, Phase.endsOperand, Phase.allowsSign, hop, eq_comm]

lemma next_opening_eq_error_iff :
    phase.next .opening = .error cause ↔ phase = .afterOperand ∧ cause = .operatorExpected := by
  cases phase <;> simp [Phase.next, eq_comm]

lemma next_operand_eq_error_iff :
    phase.next .operand = .error cause ↔ phase = .afterOperand ∧ cause = .operatorExpected := by
  cases phase <;> simp [Phase.next, eq_comm]

lemma next_closing_eq_error_iff :
    phase.next .closing = .error cause ↔
      phase = .afterOpening ∧ cause = .emptyParentheses ∨
        (phase = .start ∨ phase = .afterOperator) ∧ cause = .unexpectedCloseParen := by
  cases phase <;> simp [Phase.next, eq_comm]

lemma next_comma_eq_error_iff :
    phase.next .comma = .error cause ↔ phase ≠ .afterOperand ∧ cause = .unexpectedComma := by
  cases phase <;> simp [Phase.next, eq_comm]

end Phase

/-- A group cannot end if it is a call with a wrong number of arguments. -/
lemma Group.ending_eq_error_iff {g : Group} {cause : Cause} :
    g.ending = .error cause ↔ ∃ f expected, g.callee = some f ∧ f.arity = .exact expected ∧
      expected ≠ g.begun ∧ cause = .argumentCount f.name expected g.begun := by
  unfold Group.ending
  cases hcallee : g.callee with
  | none => simp
  | some f =>
    cases harity : f.arity with
    | exact expected =>
      by_cases hcount : expected = g.begun <;> simp [harity, hcount, eq_comm]
    | variadic => simp [harity]

/-- Whether a word is an operand or begins one. -/
def Word.Meaning.beginsOperand : Word.Meaning → Bool
  | .opening | .number _ | .variable _ | .call _ _ | .bare _ | .unreadable _ => true
  | _ => false

namespace Conversion

/-- What reading a word can fail with. -/
inductive Fails (c : Conversion) : Word → Fault → Prop where
  | illegal {found : Char} {start : Nat} :
      Fails c ⟨.illegal found, start⟩ ((Cause.illegalCharacter found).at start)
  | operator {op : Operator} {start : Nat}
      (hphase : c.phase = .afterOperator ∨ c.phase.allowsSign ∧ op.isSign = false) :
      Fails c ⟨.operator op, start⟩ ((Cause.unexpectedOperator op.symbol).at start)
  | operand {meaning : Word.Meaning} {start : Nat} (hmeaning : meaning.beginsOperand)
      (hphase : c.phase = .afterOperand) :
      Fails c ⟨meaning, start⟩ (Cause.operatorExpected.at start)
  | empty {start : Nat} (hphase : c.phase = .afterOpening) :
      Fails c ⟨.closing, start⟩ (Cause.emptyParentheses.at start)
  | closing {start : Nat} (hphase : c.phase = .start ∨ c.phase = .afterOperator) :
      Fails c ⟨.closing, start⟩ (Cause.unexpectedCloseParen.at start)
  | unmatched {start : Nat}
      (hnone : ∀ waiting group groups,
        c.drain.waiting = .mark :: waiting → c.groups ≠ group :: groups) :
      Fails c ⟨.closing, start⟩ (Cause.unexpectedCloseParen.at start)
  | arguments {start expected begun openAt : Nat} {f : Builtin} {groups : List Group}
      (hgroups : c.groups = ⟨some f, begun, openAt⟩ :: groups)
      (harity : f.arity = .exact expected) (hne : expected ≠ begun) :
      Fails c ⟨.closing, start⟩ ((Cause.argumentCount f.name expected begun).at start)
  | comma {start : Nat} (hphase : c.phase ≠ .afterOperand) :
      Fails c ⟨.comma, start⟩ (Cause.unexpectedComma.at start)
  | outside {start : Nat}
      (hnone : ∀ f begun openAt groups, c.groups ≠ ⟨some f, begun, openAt⟩ :: groups) :
      Fails c ⟨.comma, start⟩ (Cause.unexpectedComma.at start)
  | bare {f : Builtin} {start : Nat} :
      Fails c ⟨.bare f, start⟩ ((Cause.missingOpenParen f.name).at start)
  | unreadable {literal : String} {start : Nat} :
      Fails c ⟨.unreadable literal, start⟩ ((Cause.invalidNumber literal).at start)

variable {c c' : Conversion} {fault : Fault}

lemma pass_eq_error_iff {t : Terminal} {start : Nat} :
    c.pass t start = .error fault ↔ ∃ cause, c.phase.next t = .error cause ∧
      cause.at start = fault := by
  cases hc : c.phase.next t <;> simp [pass, hc]

lemma leave_eq_error {start : Nat} (h : c.leave start = .error fault) :
    (∀ waiting group groups, c.drain.waiting = .mark :: waiting → c.groups ≠ group :: groups) ∧
        fault = Cause.unexpectedCloseParen.at start ∨
      ∃ group groups cause, c.groups = group :: groups ∧ group.ending = .error cause ∧
        fault = cause.at start := by
  unfold leave at h
  split at h
  case h_1 waiting group groups hwaiting hgroups =>
    cases hending : group.ending with
    | ok code =>
      rw [hending] at h
      cases h
    | error cause =>
      rw [hending] at h
      cases h
      exact .inr ⟨group, groups, cause, hgroups, hending, rfl⟩
  case h_2 hnone =>
    cases h
    exact .inl ⟨fun waiting group groups hwaiting hgroups =>
      hnone waiting group groups hwaiting hgroups, rfl⟩

lemma beginArgument_eq_error {start : Nat} (h : c.beginArgument start = .error fault) :
    (∀ f begun openAt groups, c.groups ≠ ⟨some f, begun, openAt⟩ :: groups) ∧
      fault = Cause.unexpectedComma.at start := by
  unfold beginArgument at h
  split at h
  case h_1 f begun openAt groups hgroups => cases h
  case h_2 hnone =>
    cases h
    exact ⟨hnone, rfl⟩

lemma pass_operand_eq_error {meaning : Word.Meaning} {start : Nat}
    (hmeaning : meaning.beginsOperand) (h : c.pass .operand start = .error fault) :
    Fails c ⟨meaning, start⟩ fault := by
  obtain ⟨cause, hnext, rfl⟩ := pass_eq_error_iff.mp h
  obtain ⟨hphase, rfl⟩ := Phase.next_operand_eq_error_iff.mp hnext
  exact .operand hmeaning hphase

/-- The cases of `Fails` are all in which a word cannot be read. -/
theorem fails_of_read {w : Word} (h : c.read w = .error fault) : Fails c w fault := by
  obtain ⟨meaning, start⟩ := w
  cases meaning with
  | operator op =>
    obtain ⟨cause, hnext, rfl⟩ := pass_eq_error_iff.mp (map_eq_error_iff.mp h)
    obtain ⟨hphase, rfl⟩ := Phase.next_operator_eq_error_iff.mp hnext
    exact .operator hphase
  | opening =>
    obtain ⟨cause, hnext, rfl⟩ := pass_eq_error_iff.mp (map_eq_error_iff.mp h)
    obtain ⟨hphase, rfl⟩ := Phase.next_opening_eq_error_iff.mp hnext
    exact .operand rfl hphase
  | closing =>
    rcases bind_eq_error_iff.mp h with hpass | ⟨next, hpass, hleave⟩
    · obtain ⟨cause, hnext, rfl⟩ := pass_eq_error_iff.mp hpass
      rcases Phase.next_closing_eq_error_iff.mp hnext with ⟨hphase, rfl⟩ | ⟨hphase, rfl⟩
      · exact .empty hphase
      · exact .closing hphase
    · obtain ⟨-, rfl⟩ := pass_closing_eq_ok_iff.mp hpass
      rcases leave_eq_error hleave with ⟨hnone, rfl⟩ | ⟨group, groups, cause, hgroups, hending, rfl⟩
      · exact .unmatched hnone
      · obtain ⟨callee, begun, openAt⟩ := group
        obtain ⟨f, expected, rfl, harity, hne, rfl⟩ := Group.ending_eq_error_iff.mp hending
        exact .arguments hgroups harity hne
  | comma =>
    rcases bind_eq_error_iff.mp h with hpass | ⟨next, hpass, hbegin⟩
    · obtain ⟨cause, hnext, rfl⟩ := pass_eq_error_iff.mp hpass
      obtain ⟨hphase, rfl⟩ := Phase.next_comma_eq_error_iff.mp hnext
      exact .comma hphase
    · obtain ⟨-, rfl⟩ := pass_comma_eq_ok_iff.mp hpass
      obtain ⟨hnone, rfl⟩ := beginArgument_eq_error hbegin
      exact .outside hnone
  | number value => exact pass_operand_eq_error rfl (map_eq_error_iff.mp h)
  | «variable» name => exact pass_operand_eq_error rfl (map_eq_error_iff.mp h)
  | call f openAt => exact pass_operand_eq_error rfl (map_eq_error_iff.mp h)
  | bare f =>
    rcases bind_eq_error_iff.mp h with hpass | ⟨next, -, hbare⟩
    · exact pass_operand_eq_error rfl hpass
    · cases hbare
      exact .bare
  | unreadable literal =>
    rcases bind_eq_error_iff.mp h with hpass | ⟨next, -, hunreadable⟩
    · exact pass_operand_eq_error rfl hpass
    · cases hunreadable
      exact .unreadable
  | illegal found =>
    cases h
    exact .illegal

/-- A list of words fails at the first one that cannot be read. -/
lemma exists_of_consume_eq_some {ws : List Word} (h : c.consume ws = (c', some fault)) :
    ∃ before w after, ws = before ++ w :: after ∧ c.consume before = (c', none) ∧
      c'.read w = .error fault := by
  induction ws generalizing c with
  | nil => cases h
  | cons w ws ih =>
    rw [consume] at h
    cases hread : c.read w with
    | error e =>
      rw [hread] at h
      cases h
      exact ⟨[], w, ws, rfl, rfl, hread⟩
    | ok next =>
      rw [hread] at h
      obtain ⟨before, w', after, rfl, hconsume, hfault⟩ := ih h
      refine ⟨w :: before, w', after, rfl, ?_, hfault⟩
      exact consume_cons_eq_none_iff.mpr ⟨next, read_eq_ok_iff.mp hread, hconsume⟩

/-- What can be missing at the end of a statement. -/
lemma program_eq_error (h : c.program = .error fault) :
    c.phase = .afterOperator ∧ fault = Cause.trailingOperator.overall ∨
      ∃ group groups, c.groups = group :: groups ∧
        fault = Cause.unclosedParen.at group.start := by
  unfold program at h
  split at h
  case isTrue hphase =>
    cases h
    exact .inl ⟨hphase, rfl⟩
  case isFalse =>
    cases hgroups : c.groups with
    | nil =>
      rw [hgroups] at h
      cases h
    | cons group groups =>
      rw [hgroups] at h
      cases h
      exact .inr ⟨group, groups, rfl, rfl⟩

end Conversion

end InfixCalc

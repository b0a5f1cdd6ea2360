import InfixCalc.Calculator
import InfixCalc.Proofs.Conversion.Reads
import InfixCalc.Proofs.Grammar.Basic
import InfixCalc.Proofs.Lexeme.Tokens

/-!
# Reading phrases

Whatever follows the grammar is read without a fault, and the program of its tree is what has been
emitted when its last operators have been applied. The proof goes along the parse tree: an operand
leaves nothing to wait, a chain leaves the operators that `Run.climb` leaves, and at the end of a
phrase `Run.complete` applies these.
-/

namespace InfixCalc

namespace Conversion

mutual
/-- An operand emits its program. -/
theorem reads_operand (a : Operand) (c : Conversion) (hphase : c.phase ≠ .afterOperand) :
    c.Reads a.tokens fun c' => Holds c [] a.tree.code c' ∧ c'.phase = .afterOperand := by
  match a with
  | .number text value digit read =>
    exact reads_number digit read hphase ⟨((Holds.refl c).withPhase _).emit _, rfl⟩
  | .variable name noDigit noFunction =>
    exact reads_variable noDigit noFunction hphase ⟨((Holds.refl c).withPhase _).emit _, rfl⟩
  | .group phrase =>
    refine Reads.cons (reads_opening hphase fun start => Reads.append ?_)
    refine (reads_phrase phrase _ rfl (by rintro w ⟨⟩; rfl)).mono ?_
    rintro c' ⟨hdrain, hphase'⟩
    refine reads_closing hphase' hdrain.waiting hdrain.groups rfl ⟨⟨?_, rfl, rfl⟩, hphase'⟩
    rw [code_emit, List.append_nil]
    exact hdrain.code
  | .call f n arguments accepts =>
    change c.Reads ([.segment f.name, .opening] ++ (arguments.tokens ++ [.closing])) _
    refine Reads.append (reads_call hphase fun openAt => Reads.append ?_)
    refine (reads_arguments arguments _ rfl (by rintro w ⟨⟩; rfl) rfl).mono ?_
    rintro c' ⟨hcode, hwaiting, hgroups, hphase'⟩
    have hending : Group.ending ⟨some f, n, openAt⟩ = .ok [.call f n] :=
      (Group.ending_call_eq_ok_iff arguments.one_le).mpr ⟨accepts, rfl⟩
    refine reads_closing hphase' hwaiting hgroups hending ⟨⟨?_, rfl, rfl⟩, hphase'⟩
    change c'.drain.code = c.code ++ _ at hcode
    rw [code_emit, Operand.tree, Tree.code, arguments.length_trees]
    change c'.drain.code ++ _ = _
    simp [hcode, leftCode]

/-- A chain leaves the operators that wait at its end. -/
theorem reads_chain (chain : Chain) (base c : Conversion) (pending : Run.Pending)
    (hbase : Waiting.AtMark base.waiting) (hc : Holds base pending [] c)
    (hphase : c.phase ≠ .afterOperand) :
    c.Reads chain.tokens fun c' =>
      Holds base (Run.climb (chain.run.first, pending) chain.run.links).2
          (Run.climb (chain.run.first, pending) chain.run.links).1.code c' ∧
        c'.phase = .afterOperand := by
  match chain with
  | .operand last =>
    exact (reads_operand last c hphase).mono fun c' ⟨h, hphase'⟩ => ⟨hc.operand h, hphase'⟩
  | .join chain op last =>
    refine Reads.append ((reads_chain chain base c pending hbase hc hphase).mono ?_)
    rintro c₁ ⟨h₁, hphase₁⟩
    have hnext : c₁.phase.next (.operator op) = .ok .afterOperator :=
      Phase.next_operator_eq_ok_iff.mpr ⟨.inl hphase₁, rfl⟩
    have hsign : c₁.phase.allowsSign = false := by simp [hphase₁, Phase.allowsSign]
    -- The chain so far is the left operand of `op`, up to the operators that `op` does not apply.
    have h₂ := (h₁.withPhase .afterOperator).receive hbase op last.tree
    refine Reads.cons (reads_operator hnext ?_)
    rw [hsign]
    refine (reads_operand last _ (by simp)).mono ?_
    rintro c₃ ⟨h₃, hphase₃⟩
    rw [Chain.run, Run.climb_append]
    exact ⟨h₂.operand h₃, hphase₃⟩

/-- A phrase emits its program, up to the operators that wait at its end. -/
theorem reads_phrase (phrase : Phrase) (c : Conversion) (hphase : c.phase.allowsSign)
    (hmark : Waiting.AtMark c.waiting) :
    c.Reads phrase.tokens fun c' =>
      Holds c [] phrase.tree.code c'.drain ∧ c'.phase = .afterOperand := by
  match phrase with
  | .plain chain =>
    have hoperand := Phase.ne_afterOperand_of_allowsSign hphase
    refine (reads_chain chain c c [] hmark (.refl c) hoperand).mono ?_
    rintro c' ⟨h, hphase'⟩
    rw [Phrase.tree, ← Run.finish_eq_sum]
    exact ⟨h.drain hmark, hphase'⟩
  | .signed sign isSign chain =>
    have hnext : c.phase.next (.operator sign) = .ok .afterOperator :=
      Phase.next_operator_eq_ok_iff.mpr ⟨.inr ⟨hphase, isSign⟩, rfl⟩
    have hzero := (((Holds.refl c).withPhase .afterOperator).emit [.number 0]).receive
      (t := .number 0) hmark sign chain.run.first
    refine Reads.cons (reads_operator hnext ?_)
    rw [hphase]
    refine (reads_chain chain c _ _ hmark hzero (by rw [phase_receive]; rintro ⟨⟩)).mono ?_
    rintro c' ⟨h, hphase'⟩
    rw [Phrase.tree, ← Run.finish_eq_sum]
    exact ⟨h.drain hmark, hphase'⟩

/-- Arguments emit their programs one after the other. -/
theorem reads_arguments {n : Nat} (arguments : Arguments n) (c : Conversion) {f : Builtin}
    {openAt : Nat} {groups : List Group} (hphase : c.phase.allowsSign)
    (hmark : Waiting.AtMark c.waiting) (hgroups : c.groups = ⟨some f, 1, openAt⟩ :: groups) :
    c.Reads arguments.tokens fun c' =>
      c'.drain.code = c.code ++ Tree.codes arguments.trees ∧ c'.drain.waiting = c.waiting ∧
        c'.groups = ⟨some f, n, openAt⟩ :: groups ∧ c'.phase = .afterOperand := by
  match arguments with
  | .one phrase =>
    refine (reads_phrase phrase c hphase hmark).mono ?_
    rintro c' ⟨h, hphase'⟩
    refine ⟨?_, h.waiting, h.groups.trans hgroups, hphase'⟩
    simpa [leftCode, Arguments.trees, Tree.codes] using h.code
  | .snoc arguments phrase =>
    refine Reads.append ((reads_arguments arguments c hphase hmark hgroups).mono ?_)
    rintro c₁ ⟨hcode₁, hwaiting₁, hgroups₁, hphase₁⟩
    refine Reads.cons (reads_comma hphase₁ hgroups₁ ?_)
    refine (reads_phrase phrase _ rfl (by simpa [hwaiting₁] using hmark)).mono ?_
    rintro c₂ ⟨h₂, hphase₂⟩
    refine ⟨?_, h₂.waiting.trans hwaiting₁, h₂.groups, hphase₂⟩
    have hcode₂ := h₂.code
    change c₂.drain.code = c₁.drain.code ++ _ ++ _ at hcode₂
    simp [hcode₂, hcode₁, leftCode, Arguments.trees, Tree.codes]
end

end Conversion

/-! ### Statements -/

lemma parse_eq_ok_iff {statement : String} {p : Program} :
    parse statement = .ok p ↔ ∃ c : Conversion,
      Conversion.initial.consume (words statement) = (c, none) ∧ c.program = .ok p := by
  unfold parse compile
  rcases Conversion.initial.consume (words statement) with ⟨c, _ | fault⟩
  · cases hc : c.program with
    | error fault => simp [hc, Except.mapError]
    | ok q => simp [hc, Except.mapError]
  · simp [Except.mapError]

lemma parse_eq_error_iff {statement : String} {r : Rejection} :
    parse statement = .error r ↔ r.statement = statement ∧ ∃ c : Conversion,
      Conversion.initial.consume (words statement) = (c, some r.toFault) ∨
        Conversion.initial.consume (words statement) = (c, none) ∧
          c.program = .error r.toFault := by
  obtain ⟨fault, text⟩ := r
  unfold parse compile
  rcases Conversion.initial.consume (words statement) with ⟨c, _ | fault'⟩
  · cases hprogram : c.program with
    | ok p => simp [hprogram, Except.mapError]
    | error fault' =>
      simp [hprogram, Except.mapError, and_comm, eq_comm]
  · simp [Except.mapError, and_comm, eq_comm]

lemma calculate_eq_ok_iff {statement : String} {source : Source} {draws : Draws} {x : Float} :
    calculate statement source draws = .ok x ↔
      ∃ p, parse statement = .ok p ∧ p.evaluate source draws = .ok x := by
  unfold calculate
  cases parse statement with
  | error r => simp
  | ok p =>
    cases hvalue : p.evaluate source draws <;> simp [Except.mapError, hvalue]

/-- A statement that is spelled like a sentence has the program of the sentence. -/
lemma parse_of_tokens {statement : String} (hlegal : Legal statement) (s : Sentence)
    (htokens : tokens statement = s.tokens) : parse statement = .ok s.program := by
  obtain ⟨ls, hitems, hls⟩ := hlegal.exists_lexemes
  have hwords : words statement = Word.ofLexemes ls := by rw [words, hitems, Word.ofLexemes]
  rw [parse_eq_ok_iff, hwords]
  cases s with
  | blank =>
    obtain rfl : ls = [] := List.map_eq_nil_iff.mp (hls.trans htokens)
    exact ⟨.initial, rfl, rfl⟩
  | phrase phrase =>
    have hreads := Conversion.reads_phrase phrase .initial rfl (by rintro w ⟨⟩)
    obtain ⟨c, ⟨hdrain, hphase⟩, hconsume⟩ := hreads ls (hls.trans htokens)
    have hconsume := hconsume []
    rw [List.append_nil] at hconsume
    have hgroups : c.groups = [] := hdrain.groups
    have hcode := hdrain.code
    refine ⟨c, hconsume, ?_⟩
    simp only [Conversion.program, hphase, hgroups]
    simpa [Conversion.leftCode, Sentence.program] using hcode

/-- The program of a blank statement is empty. -/
lemma parse_of_blank {statement : String} (h : Blank statement) : parse statement = .ok .empty :=
  parse_of_tokens h.legal .blank ((tokens_eq_nil_iff h.legal).mpr h)

end InfixCalc

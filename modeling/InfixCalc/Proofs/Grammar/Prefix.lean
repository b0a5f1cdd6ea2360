import InfixCalc.Proofs.Grammar.Reading

/-!
# Beginnings of statements

What has been read of a statement without a fault is the beginning of a sentence: groups and calls
that are still open, each after the beginning of a phrase that an operand has to go on, and inside
the innermost one the beginning of a phrase again. `Viable` says so of the tokens read so far,
given the open groups and the phase of a conversion. Every step keeps it, so where a statement ends
without a fault, its tokens are a sentence.
-/

namespace InfixCalc

/-! ### Phrases that go on -/

/-- A phrase with one more operand. -/
def Phrase.join : Phrase → Operator → Operand → Phrase
  | .plain chain, op, last => .plain (.join chain op last)
  | .signed sign isSign chain, op, last => .signed sign isSign (.join chain op last)

lemma Phrase.tokens_join (p : Phrase) (op : Operator) (last : Operand) :
    (p.join op last).tokens = p.tokens ++ .operator op :: last.tokens := by
  cases p <;> simp [Phrase.join, Phrase.tokens, Chain.tokens]

/-- The beginning of a phrase, with the phase after it. -/
inductive Begins : List Token → Phase → Prop where
  | nothing {phase : Phase} (h : phase.allowsSign) : Begins [] phase
  | sign {op : Operator} (h : op.isSign) : Begins [.operator op] .afterOperator
  | phrase (p : Phrase) : Begins p.tokens .afterOperand
  | operator (p : Phrase) (op : Operator) : Begins (p.tokens ++ [.operator op]) .afterOperator

namespace Begins

variable {ts : List Token} {phase next : Phase}

lemma exists_phrase (h : Begins ts .afterOperand) : ∃ p : Phrase, ts = p.tokens := by
  cases h with
  | nothing hphase => cases hphase
  | phrase p => exact ⟨p, rfl⟩

lemma join_operand (h : Begins ts phase) (hphase : phase ≠ .afterOperand) (a : Operand) :
    Begins (ts ++ a.tokens) .afterOperand := by
  cases h with
  | nothing _ => exact .phrase (.plain (.operand a))
  | sign hsign => exact .phrase (.signed _ hsign (.operand a))
  | phrase p => exact absurd rfl hphase
  | operator p op =>
    rw [List.append_assoc, List.singleton_append, ← Phrase.tokens_join]
    exact .phrase (p.join op a)

lemma join_operator {op : Operator} (h : Begins ts phase)
    (hnext : phase.next (.operator op) = .ok next) : Begins (ts ++ [.operator op]) next := by
  obtain ⟨hphase, rfl⟩ := Phase.next_operator_eq_ok_iff.mp hnext
  rcases hphase with rfl | ⟨hsign, hop⟩
  · obtain ⟨p, rfl⟩ := h.exists_phrase
    exact .operator p op
  · cases h with
    | nothing _ => exact .sign hop
    | sign _ => cases hsign
    | phrase p => cases hsign
    | operator p previous => cases hsign

end Begins

/-! ### Open groups -/

/-- The arguments of a call before the latest one, each with the comma after it. -/
inductive Preceding : Nat → List Token → Prop where
  | none : Preceding 0 []
  | some {n : Nat} (arguments : Arguments n) : Preceding n (arguments.tokens ++ [.comma])

lemma Preceding.exists_arguments {n : Nat} {ts : List Token} (h : Preceding n ts) (p : Phrase) :
    ∃ arguments : Arguments (n + 1), ts ++ p.tokens = arguments.tokens := by
  cases h with
  | none => exact ⟨.one p, rfl⟩
  | some arguments => exact ⟨.snoc arguments p, by simp [Arguments.tokens]⟩

/-- The tokens up to where the innermost phrase begins, given the groups that are open there. -/
inductive Opened : List Token → List Group → Prop where
  | outermost : Opened [] []
  | group {outer ts : List Token} {groups : List Group} {phase : Phase} {start : Nat}
      (opened : Opened outer groups) (begins : Begins ts phase) (hphase : phase ≠ .afterOperand) :
      Opened (outer ++ ts ++ [.opening]) (⟨none, 1, start⟩ :: groups)
  | call {outer ts us : List Token} {groups : List Group} {phase : Phase} {f : Builtin}
      {n openAt : Nat} (opened : Opened outer groups) (begins : Begins ts phase)
      (hphase : phase ≠ .afterOperand) (preceding : Preceding n us) :
      Opened (outer ++ ts ++ .segment f.name :: .opening :: us) (⟨some f, n + 1, openAt⟩ :: groups)

/-- The tokens of a beginning of a sentence, given the open groups and the phase after it. -/
inductive Viable : List Token → List Group → Phase → Prop where
  | mk {outer ts : List Token} {groups : List Group} {phase : Phase}
      (opened : Opened outer groups) (begins : Begins ts phase) : Viable (outer ++ ts) groups phase

lemma Opened.viable {ts : List Token} {groups : List Group} {phase : Phase}
    (h : Opened ts groups) (hphase : phase.allowsSign) : Viable ts groups phase := by
  simpa using Viable.mk h (.nothing hphase)

namespace Viable

variable {ts : List Token} {c c' : Conversion} {groups : List Group} {phase next : Phase}

lemma initial : Viable [] [] .start := .mk .outermost (.nothing rfl)

lemma operand (h : Viable ts groups phase) (hphase : phase ≠ .afterOperand) (a : Operand) :
    Viable (ts ++ a.tokens) groups .afterOperand := by
  obtain ⟨opened, begins⟩ := h
  rw [List.append_assoc]
  exact .mk opened (begins.join_operand hphase a)

lemma operator {op : Operator} (h : Viable ts groups phase)
    (hnext : phase.next (.operator op) = .ok next) :
    Viable (ts ++ [.operator op]) groups next := by
  obtain ⟨opened, begins⟩ := h
  rw [List.append_assoc]
  exact .mk opened (begins.join_operator hnext)

lemma opening (h : Viable ts groups phase) (hphase : phase ≠ .afterOperand) (start : Nat) :
    Viable (ts ++ [.opening]) (⟨none, 1, start⟩ :: groups) .afterOpening := by
  obtain ⟨opened, begins⟩ := h
  exact (Opened.group opened begins hphase).viable rfl

lemma call (h : Viable ts groups phase) (hphase : phase ≠ .afterOperand) (f : Builtin)
    (openAt : Nat) :
    Viable (ts ++ [.segment f.name, .opening]) (⟨some f, 1, openAt⟩ :: groups) .afterOpening := by
  obtain ⟨opened, begins⟩ := h
  exact (Opened.call opened begins hphase .none).viable rfl

lemma comma {f : Builtin} {begun openAt : Nat}
    (h : Viable ts (⟨some f, begun, openAt⟩ :: groups) .afterOperand) :
    Viable (ts ++ [.comma]) (⟨some f, begun + 1, openAt⟩ :: groups) .start := by
  obtain ⟨opened, begins⟩ := h
  obtain ⟨p, rfl⟩ := begins.exists_phrase
  cases opened with
  | call opened begins hphase preceding =>
    obtain ⟨arguments, harguments⟩ := preceding.exists_arguments p
    have hviable : Viable _ (⟨some f, _, openAt⟩ :: _) .start :=
      (Opened.call opened begins hphase (.some arguments)).viable rfl
    simpa [← harguments] using hviable

lemma closing {group : Group} {code : List Instruction}
    (h : Viable ts (group :: groups) .afterOperand) (hending : group.ending = .ok code) :
    Viable (ts ++ [.closing]) groups .afterOperand := by
  obtain ⟨opened, begins⟩ := h
  obtain ⟨p, rfl⟩ := begins.exists_phrase
  cases opened with
  | group opened begins hphase =>
    have h := (Viable.mk opened begins).operand hphase (.group p)
    simpa [Operand.tokens] using h
  | call opened begins hphase preceding =>
    obtain ⟨arguments, harguments⟩ := preceding.exists_arguments p
    have haccepts := ((Group.ending_call_eq_ok_iff arguments.one_le).mp hending).1
    have h := (Viable.mk opened begins).operand hphase (.call _ _ arguments haccepts)
    simpa [Operand.tokens, ← harguments] using h

/-- A word makes of the beginning of a sentence a longer one. -/
theorem step {w : Word} {ls : List Lexeme} (h : Viable ts c.groups c.phase)
    (hstep : Conversion.Step c w c') (hw : w.Written ls) :
    Viable (ts ++ ls.map (·.token)) c'.groups c'.phase := by
  cases hstep with
  | operator hnext =>
    cases hw
    simpa using h.operator hnext
  | opening hphase =>
    cases hw
    exact h.opening hphase _
  | closing hphase hwaiting hgroups hending =>
    cases hw
    rw [hphase, hgroups] at h
    have h := h.closing hending
    rwa [← hphase] at h
  | comma hphase hgroups =>
    cases hw
    rw [hphase, hgroups] at h
    exact h.comma
  | number hphase =>
    cases hw with
    | number _ _ digit read => exact h.operand hphase (.number _ _ digit read)
  | «variable» hphase =>
    cases hw with
    | «variable» _ _ noDigit noFunction => exact h.operand hphase (.variable _ noDigit noFunction)
  | call hphase =>
    cases hw
    exact h.call hphase _ _

/-- Where nothing is open and no operator waits for its operand, a sentence has ended. -/
lemma exists_sentence (h : Viable ts [] phase) (hphase : phase ≠ .afterOperator) :
    ∃ s : Sentence, ts = s.tokens := by
  obtain ⟨opened, begins⟩ := h
  cases opened
  cases begins with
  | nothing _ => exact ⟨.blank, rfl⟩
  | phrase p => exact ⟨.phrase p, rfl⟩
  | sign _ => exact absurd rfl hphase
  | operator p op => exact absurd rfl hphase

end Viable

end InfixCalc

import InfixCalc.Proofs.Conversion.Step
import InfixCalc.Proofs.Tree.Precedence
import InfixCalc.Proofs.Word.Spelling

/-!
# Reading tokens

`c.Reads ts Q` says that a conversion in the state `c` reads the tokens `ts` without a fault,
whatever lexemes carry them and whatever lexemes follow, and that `Q` holds of its state
afterwards. There is one rule for each kind of token, and one that puts two readings together.

`Holds base pending code c` describes such a state by what has been added since `base`: operators
that wait, with the programs of their left operands, and the program of the latest operand.
-/

namespace InfixCalc

namespace Waiting

@[simp] lemma operator?_operator (op : Operator) : (Waiting.operator op).operator? = some op := rfl

@[simp] lemma operator?_mark : Waiting.mark.operator? = none := rfl

@[simp] lemma operators_nil : operators [] = [] := rfl

@[simp] lemma operators_cons_operator (op : Operator) (ws : List Waiting) :
    operators (.operator op :: ws) = op :: operators ws := rfl

/-- Whether a stack of waiting operators has no operators above its topmost mark. -/
def AtMark (ws : List Waiting) : Prop := ∀ w ∈ ws.head?, w = .mark

lemma AtMark.takeWhile_eq_nil {ws : List Waiting} (h : AtMark ws) (p : Operator → Bool) :
    ws.takeWhile (·.operator?.any p) = [] := by
  cases ws with
  | nil => rfl
  | cons w ws =>
    obtain rfl := h w rfl
    simp

lemma AtMark.dropWhile_eq_self {ws : List Waiting} (h : AtMark ws) (p : Operator → Bool) :
    ws.dropWhile (·.operator?.any p) = ws := by
  cases ws with
  | nil => rfl
  | cons w ws =>
    obtain rfl := h w rfl
    simp

end Waiting

namespace Conversion

/-- Reading tokens leads to a state with a certain property. -/
def Reads (c : Conversion) (ts : List Token) (Q : Conversion → Prop) : Prop :=
  ∀ ls : List Lexeme, ls.map (·.token) = ts →
    ∃ c', Q c' ∧ ∀ rest : List Lexeme,
      c.consume (Word.ofLexemes (ls ++ rest)) = c'.consume (Word.ofLexemes rest)

variable {c : Conversion} {ts us : List Token} {P Q : Conversion → Prop}

lemma Reads.mono (h : c.Reads ts P) (hPQ : ∀ c', P c' → Q c') : c.Reads ts Q := by
  intro ls hls
  obtain ⟨c', hc', hread⟩ := h ls hls
  exact ⟨c', hPQ c' hc', hread⟩

lemma Reads.append (h : c.Reads ts fun c' => c'.Reads us Q) : c.Reads (ts ++ us) Q := by
  intro ls hls
  obtain ⟨front, back, rfl, hfront, hback⟩ := List.map_eq_append_iff.mp hls
  obtain ⟨c₁, h₁, hread₁⟩ := h front hfront
  obtain ⟨c₂, h₂, hread₂⟩ := h₁ back hback
  exact ⟨c₂, h₂, fun rest => by rw [List.append_assoc, hread₁, hread₂]⟩

lemma Reads.cons {t : Token} (h : c.Reads [t] fun c' => c'.Reads us Q) : c.Reads (t :: us) Q :=
  Reads.append h

/-- A token that is a word by itself is read as its meaning, wherever it stands. -/
lemma reads_word {t : Token} (meaning : Word.Meaning)
    (hword : ∀ (l : Lexeme) (rest : List Lexeme), l.token = t →
      Word.ofLexemes (l :: rest) = ⟨meaning, l.start⟩ :: Word.ofLexemes rest)
    (h : ∀ start, ∃ c', Q c' ∧ Step c ⟨meaning, start⟩ c') : c.Reads [t] Q := by
  intro ls hls
  obtain ⟨l, rest, rfl, ht, hnil⟩ := List.map_eq_cons_iff.mp hls
  obtain rfl := List.map_eq_nil_iff.mp hnil
  obtain ⟨c', hQ, hstep⟩ := h l.start
  have hread := read_eq_ok_iff.mpr hstep
  refine ⟨c', hQ, fun rest => ?_⟩
  simp only [List.cons_append, List.nil_append, hword l rest ht, consume, hread]

/-! ### Rules -/

lemma reads_operator {op : Operator} {phase : Phase}
    (hnext : c.phase.next (.operator op) = .ok phase)
    (hQ : Q ({ c with phase }.receive op c.phase.allowsSign)) :
    c.Reads [.operator op] Q := by
  refine reads_word (.operator op) ?_ fun start => ⟨_, hQ, .operator hnext⟩
  rintro ⟨_, start, stop⟩ rest rfl
  rfl

lemma reads_opening (hphase : c.phase ≠ .afterOperand)
    (hQ : ∀ start, Q ({ c with phase := .afterOpening }.enter none start)) :
    c.Reads [.opening] Q := by
  refine reads_word .opening ?_ fun start => ⟨_, hQ start, .opening hphase⟩
  rintro ⟨_, start, stop⟩ rest rfl
  rfl

/-- A group ends where its mark is on top, once its operators have been applied. -/
lemma reads_closing {group : Group} {groups : List Group} {waiting : List Waiting}
    {code : List Instruction} (hphase : c.phase = .afterOperand)
    (hwaiting : c.drain.waiting = .mark :: waiting) (hgroups : c.groups = group :: groups)
    (hending : group.ending = .ok code)
    (hQ : Q ({ c.drain with waiting, groups }.emit code)) : c.Reads [.closing] Q := by
  refine reads_word .closing ?_ fun start =>
    ⟨_, hQ, .closing hphase hwaiting hgroups hending⟩
  rintro ⟨_, start, stop⟩ rest rfl
  rfl

lemma reads_comma {f : Builtin} {begun openAt : Nat} {groups : List Group}
    (hphase : c.phase = .afterOperand) (hgroups : c.groups = ⟨some f, begun, openAt⟩ :: groups)
    (hQ : Q { c.drain with phase := .start, groups := ⟨some f, begun + 1, openAt⟩ :: groups }) :
    c.Reads [.comma] Q := by
  refine reads_word .comma ?_ fun start => ⟨_, hQ, .comma hphase hgroups⟩
  rintro ⟨_, start, stop⟩ rest rfl
  rfl

lemma reads_number {text : String} {value : Float} (hdigit : Word.startsWithDigit text)
    (hvalue : Number.read? text = some value) (hphase : c.phase ≠ .afterOperand)
    (hQ : Q ({ c with phase := .afterOperand }.emit [.number value])) :
    c.Reads [.segment text] Q := by
  refine reads_word (.number value) ?_ fun start => ⟨_, hQ, .number hphase⟩
  rintro ⟨_, start, stop⟩ rest rfl
  rw [Word.ofLexemes_segment (Builtin.ofName?_of_startsWithDigit hdigit), Word.Meaning.ofSegment,
    if_pos hdigit, hvalue]

lemma reads_variable {name : String} (hdigit : Word.startsWithDigit name = false)
    (hname : Builtin.ofName? name = none) (hphase : c.phase ≠ .afterOperand)
    (hQ : Q ({ c with phase := .afterOperand }.emit [.variable name])) :
    c.Reads [.segment name] Q := by
  refine reads_word (.variable name) ?_ fun start => ⟨_, hQ, .variable hphase⟩
  rintro ⟨_, start, stop⟩ rest rfl
  rw [Word.ofLexemes_segment hname, Word.Meaning.ofSegment, if_neg (by simp [hdigit])]

lemma reads_call {f : Builtin} (hphase : c.phase ≠ .afterOperand)
    (hQ : ∀ openAt, Q ({ c with phase := .afterOpening }.enter (some f) openAt)) :
    c.Reads [.segment f.name, .opening] Q := by
  intro ls hls
  obtain ⟨⟨_, start, stop⟩, ls, rfl, rfl, htail⟩ := List.map_eq_cons_iff.mp hls
  obtain ⟨⟨_, openAt, openStop⟩, ls, rfl, rfl, hnil⟩ := List.map_eq_cons_iff.mp htail
  obtain rfl := List.map_eq_nil_iff.mp hnil
  have hread : c.read ⟨.call f openAt, start⟩ = .ok _ := read_eq_ok_iff.mpr (.call hphase)
  refine ⟨_, hQ openAt, fun rest => ?_⟩
  simp only [List.cons_append, List.nil_append, Word.ofLexemes_call, consume, hread]

/-! ### Waiting operators -/

/-- The programs of the left operands of operators that wait, in the order of the statement. -/
def leftCode : Run.Pending → List Instruction
  | [] => []
  | (_, left) :: pending => leftCode pending ++ left.code

/-- The entries of operators that wait. -/
def entries : Run.Pending → List Waiting
  | [] => []
  | (op, _) :: pending => .operator op :: entries pending

/-- What has been added since `base`: operators that wait, and the program of the latest operand. -/
structure Holds (base : Conversion) (pending : Run.Pending) (latest : List Instruction)
    (c : Conversion) : Prop where
  code : c.code = base.code ++ leftCode pending ++ latest
  waiting : c.waiting = entries pending ++ base.waiting
  groups : c.groups = base.groups

/-- Applying the entries of waiting operators builds the trees of these operators. -/
lemma apply_entries {ws : List Waiting} (hws : Waiting.AtMark ws) (p : Operator → Bool) (t : Tree)
    (pending : Run.Pending) :
    leftCode pending ++ t.code
        ++ (Waiting.operators ((entries pending ++ ws).takeWhile (·.operator?.any p))).map
            .operator
      = leftCode (Run.applyWhile p t pending).2 ++ (Run.applyWhile p t pending).1.code ∧
      (entries pending ++ ws).dropWhile (·.operator?.any p)
        = entries (Run.applyWhile p t pending).2 ++ ws := by
  induction pending generalizing t with
  | nil =>
    simp [leftCode, entries, Run.applyWhile, hws.takeWhile_eq_nil, hws.dropWhile_eq_self]
  | cons link pending ih =>
    obtain ⟨op, left⟩ := link
    by_cases hp : p op
    · obtain ⟨hcode, hrest⟩ := ih (.binary op left t)
      simp [leftCode, entries, Run.applyWhile, hp, ← hcode, hrest, Tree.code]
    · simp [leftCode, entries, Run.applyWhile, hp]

namespace Holds

variable {base : Conversion} {pending : Run.Pending} {t : Tree}

lemma refl (c : Conversion) : Holds c [] [] c := ⟨by simp [leftCode], by simp [entries], rfl⟩

lemma withPhase {latest : List Instruction} (h : Holds base pending latest c) (phase : Phase) :
    Holds base pending latest { c with phase } := ⟨h.code, h.waiting, h.groups⟩

lemma emit {latest : List Instruction} (h : Holds base pending latest c)
    (more : List Instruction) : Holds base pending (latest ++ more) (c.emit more) :=
  ⟨by simp [h.code], h.waiting, h.groups⟩

/-- An operand is added to whatever waits. -/
lemma operand {code : List Instruction} {c' : Conversion} (h : Holds base pending [] c)
    (h' : Holds c [] code c') : Holds base pending code c' where
  code := by simp [h'.code, h.code, leftCode]
  waiting := by simp [h'.waiting, h.waiting, entries]
  groups := h'.groups.trans h.groups

/-- An operator applies those that yield to it, and waits. -/
lemma receive (h : Holds base pending t.code c) (hbase : Waiting.AtMark base.waiting)
    (op : Operator) (next : Tree) :
    Holds base (Run.shift (t, pending) (op, next)).2 [] (c.receive op false) := by
  obtain ⟨hcode, hwaiting⟩ := apply_entries hbase (·.yieldsTo op) t pending
  have hpred : Waiting.yieldsTo op = (·.operator?.any (·.yieldsTo op)) := rfl
  refine ⟨?_, ?_, h.groups⟩
  · change (c.reduce op).code = _
    rw [code_reduce, h.code, h.waiting, hpred]
    simpa [Run.shift, leftCode] using hcode
  · change .operator op :: c.waiting.dropWhile (Waiting.yieldsTo op) = _
    rw [h.waiting, hpred]
    simpa [Run.shift, entries] using hwaiting

/-- At the end of a group all operators are applied. -/
lemma drain (h : Holds base pending t.code c) (hbase : Waiting.AtMark base.waiting) :
    Holds base [] (Run.complete t pending).code c.drain := by
  obtain ⟨hcode, hwaiting⟩ := apply_entries hbase (fun _ => true) t pending
  have hpred : Waiting.isOperator = (·.operator?.any fun _ => true) := by
    funext w
    cases w <;> rfl
  have hall : (Run.applyWhile (fun _ => true) t pending).2 = [] := Run.snd_applyWhile_true t pending
  rw [hall] at hcode hwaiting
  refine ⟨?_, ?_, h.groups⟩
  · rw [code_drain, h.code, h.waiting, hpred]
    simpa [leftCode, Run.complete] using hcode
  · change c.waiting.dropWhile Waiting.isOperator = _
    rw [h.waiting, hpred, hwaiting]

end Holds

end Conversion

end InfixCalc

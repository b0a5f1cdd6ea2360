import InfixCalc.Proofs.Conversion.Parentheses
import InfixCalc.Proofs.Grammar.Prefix

/-!
# What a conversion remembers

A conversion keeps little of what it has read, and all of it is true: its phase is that of the last
token, and its groups are the open parentheses, each at its place, with the function that it belongs
to and the commas since. `Tracks ls c` says so of a conversion that has read the lexemes `ls`. Every
word keeps it, and so does every list of words that is read without a fault. So a statement with a
program is legal, and its tokens are a sentence.
-/

namespace InfixCalc

/-- The phase after a token, or at the start. -/
def Phase.after : Option Token → Phase
  | none | some .comma => .start
  | some .opening => .afterOpening
  | some (.operator _) => .afterOperator
  | some .closing | some (.segment _) => .afterOperand

namespace Phase

variable {t : Option Token}

lemma after_eq_start_iff : after t = .start ↔ t = none ∨ t = some .comma := by
  cases t with
  | none => simp [after]
  | some t => cases t <;> simp [after]

lemma after_eq_afterOpening_iff : after t = .afterOpening ↔ t = some .opening := by
  cases t with
  | none => simp [after]
  | some t => cases t <;> simp [after]

lemma after_eq_afterOperator_iff : after t = .afterOperator ↔ ∃ op, t = some (.operator op) := by
  cases t with
  | none => simp [after]
  | some t => cases t <;> simp [after]

end Phase

/-! ### Marks -/

namespace Waiting

variable {ws : List Waiting}

lemma count_mark_dropWhile {p : Waiting → Bool} (hp : p .mark = false) :
    (ws.dropWhile p).count .mark = ws.count .mark := by
  induction ws with
  | nil => rfl
  | cons w ws ih =>
    by_cases hw : p w
    · have hne : w ≠ .mark := by
        rintro rfl
        rw [hp] at hw
        cases hw
      rw [List.dropWhile_cons_of_pos hw, ih, List.count_cons_of_ne hne]
    · rw [List.dropWhile_cons_of_neg hw]

/-- Above the topmost mark there are only operators. -/
lemma exists_of_mark_mem (h : .mark ∈ ws) : ∃ rest, ws.dropWhile isOperator = .mark :: rest := by
  induction ws with
  | nil => cases h
  | cons w ws ih =>
    cases w with
    | mark => exact ⟨ws, rfl⟩
    | operator op => exact ih (by simpa using h)

end Waiting

/-! ### Steps -/

/-- The lexemes of a word are read as that word whatever follows. -/
lemma Word.Written.ofLexemes_append {w : Word} {ls : List Lexeme} (h : w.Written ls)
    (rest : List Lexeme) : ofLexemes (ls ++ rest) = w :: ofLexemes rest := by
  cases h with
  | operator | opening | closing | comma => rfl
  | number start stop digit read =>
    rw [List.singleton_append, ofLexemes_segment (Builtin.ofName?_of_startsWithDigit digit),
      Meaning.ofSegment, if_pos digit, read]
  | «variable» start stop noDigit noFunction =>
    rw [List.singleton_append, ofLexemes_segment noFunction, Meaning.ofSegment,
      if_neg (Bool.eq_false_iff.mp noDigit)]
  | call f start stop openAt openStop => exact ofLexemes_call f start stop openAt openStop rest

/-- The token right before a place, given the lexemes up to there. -/
def previous? (before : List Lexeme) : Option Token := (before.map (·.token)).getLast?

/-- What a conversion remembers of the lexemes that it has read. -/
structure Tracks (ls : List Lexeme) (c : Conversion) : Prop where
  phase : c.phase = .after (previous? ls)
  opens : Opens ls c.groups
  marks : c.waiting.count .mark = c.groups.length
  viable : Viable (ls.map (·.token)) c.groups c.phase

variable {ls ls' : List Lexeme} {c c' : Conversion} {w : Word}

/-- Where an operand may begin, no name of a function has just been read. -/
lemma callee?_eq_none (h : Phase.after (previous? ls) ≠ .afterOperand) :
    callee? (ls.map (·.token)) = none := by
  unfold callee?
  split
  case h_1 text hlast =>
    rw [previous?, hlast] at h
    exact absurd rfl h
  case h_2 => rfl

namespace Conversion

lemma count_mark_receive (op : Operator) (isSign : Bool) :
    (c.receive op isSign).waiting.count .mark = c.waiting.count .mark := by
  have hdrop : (c.waiting.dropWhile (Waiting.yieldsTo op)).count .mark = c.waiting.count .mark :=
    Waiting.count_mark_dropWhile rfl
  cases isSign <;> simpa [receive, reduce, shift, emit, note] using hdrop

namespace Step

/-- What can be read is written with lexemes. -/
lemma exists_written {is rest : List Item} (h : Step c w c') (hheads : Word.Heads is w rest) :
    ∃ ls : List Lexeme, is = ls.map .lexeme ++ rest ∧ w.Written ls := by
  cases hheads with
  | written hw rest => exact ⟨_, rfl, hw⟩
  | unreadable | bare | illegal | lost => cases h

lemma phase_eq (h : Step c w c') (hw : w.Written ls') (ls : List Lexeme) :
    c'.phase = .after (previous? (ls ++ ls')) := by
  rw [previous?, List.map_append]
  cases h with
  | operator hnext =>
    cases hw
    obtain ⟨-, rfl⟩ := Phase.next_operator_eq_ok_iff.mp hnext
    simp [Phase.after]
  | opening hphase =>
    cases hw
    simp [Phase.after, enter]
  | closing hphase hwaiting hgroups hending =>
    cases hw
    simp [Phase.after, emit, drain, hphase]
  | comma hphase hgroups =>
    cases hw
    simp [Phase.after]
  | number hphase | «variable» hphase =>
    cases hw
    simp [Phase.after, emit]
  | call hphase =>
    cases hw
    simp [Phase.after, enter]

lemma marks (h : Step c w c') (hmarks : c.waiting.count .mark = c.groups.length) :
    c'.waiting.count .mark = c'.groups.length := by
  have hdrain : c.drain.waiting.count .mark = c.groups.length := by
    rw [← hmarks]
    exact Waiting.count_mark_dropWhile rfl
  cases h with
  | operator hnext =>
    rw [groups_receive, ← hmarks]
    exact count_mark_receive _ _
  | opening hphase => simp [enter, hmarks]
  | closing hphase hwaiting hgroups hending =>
    rw [hwaiting, hgroups] at hdrain
    simpa [emit] using hdrain
  | comma hphase hgroups =>
    rw [hgroups] at hdrain
    exact hdrain
  | number hphase | «variable» hphase => exact hmarks
  | call hphase => simp [enter, hmarks]

lemma opens (h : Step c w c') (hw : w.Written ls') (htracks : Tracks ls c) :
    Opens (ls ++ ls') c'.groups := by
  have hopens := htracks.opens
  cases h with
  | operator hnext =>
    cases hw
    rw [groups_receive]
    exact hopens.operator _ _ _
  | @opening start hphase =>
    cases hw with
    | opening _ stop =>
      have hopens := hopens.opening start stop
      rwa [callee?_eq_none (htracks.phase ▸ hphase)] at hopens
  | closing hphase hwaiting hgroups hending =>
    cases hw
    rw [hgroups] at hopens
    exact hopens.closing _ _
  | comma hphase hgroups =>
    cases hw
    rw [hgroups] at hopens
    exact hopens.comma _ _
  | number hphase | «variable» hphase =>
    cases hw
    exact hopens.segment _ _ _
  | @call f start openAt hphase =>
    cases hw with
    | call _ _ stop _ openStop =>
      have hopens := (hopens.segment f.name start stop).opening openAt openStop
      rw [List.map_append, List.map_singleton, callee?_append_name, List.append_assoc] at hopens
      exact hopens

end Step

/-- What every word keeps holds of the lexemes of all words that are read without a fault. -/
theorem exists_of_consume {P : List Lexeme → Conversion → Prop}
    (hstep : ∀ {ls ls' c c' w}, P ls c → Step c w c' → w.Written ls' → P (ls ++ ls') c')
    {is : List Item} {before after : List Word} (h : P ls c)
    (hwords : Word.ofItems is = before ++ after) (hconsume : c.consume before = (c', none)) :
    ∃ ls' rest, is = ls'.map .lexeme ++ rest ∧ Word.ofItems rest = after ∧
      Word.ofLexemes ls' = before ∧ P (ls ++ ls') c' := by
  induction before generalizing ls c is with
  | nil =>
    cases hconsume
    exact ⟨[], is, rfl, hwords, rfl, by rwa [List.append_nil]⟩
  | cons w before ih =>
    obtain ⟨next, hread, hnext⟩ := consume_cons_eq_none_iff.mp hconsume
    rcases Word.heads_ofItems is with rfl | ⟨v, rest, hheads, hcons⟩
    · cases hwords
    · rw [hcons, List.cons_append] at hwords
      obtain ⟨rfl, htail⟩ := List.cons.inj hwords
      obtain ⟨ls₁, rfl, hwritten⟩ := hread.exists_written hheads
      obtain ⟨ls₂, rest, rfl, hrest, hbefore, hP⟩ :=
        ih (hstep h hread hwritten) htail hnext
      refine ⟨ls₁ ++ ls₂, rest, ?_, hrest, ?_, ?_⟩
      · rw [List.map_append, List.append_assoc]
      · rw [hwritten.ofLexemes_append, hbefore]
      · rwa [← List.append_assoc]

end Conversion

namespace Tracks

lemma initial : Tracks [] .initial := ⟨rfl, .outermost .nil, rfl, .initial⟩

/-- A conversion remembers a word that it reads. -/
theorem step (h : Tracks ls c) (hstep : Conversion.Step c w c') (hw : w.Written ls') :
    Tracks (ls ++ ls') c' where
  phase := hstep.phase_eq hw ls
  opens := hstep.opens hw h
  marks := hstep.marks h.marks
  viable := by
    rw [List.map_append]
    exact h.viable.step hstep hw

/-- A conversion remembers all words that it reads without a fault. -/
theorem consume {is : List Item} {before after : List Word} (h : Tracks ls c)
    (hwords : Word.ofItems is = before ++ after) (hconsume : c.consume before = (c', none)) :
    ∃ ls' rest, is = ls'.map .lexeme ++ rest ∧ Word.ofItems rest = after ∧
      Tracks (ls ++ ls') c' := by
  obtain ⟨ls', rest, his, hrest, -, htracks⟩ :=
    Conversion.exists_of_consume (fun h hstep hw => h.step hstep hw) h hwords hconsume
  exact ⟨ls', rest, his, hrest, htracks⟩

end Tracks

/-! ### Operands at the end -/

lemma Operand.exists_token (a : Operand) :
    ∃ front t, a.tokens = front ++ [t] ∧ Phase.after (some t) = .afterOperand := by
  cases a with
  | number text value digit read => exact ⟨[], .segment text, rfl, rfl⟩
  | «variable» name noDigit noFunction => exact ⟨[], .segment name, rfl, rfl⟩
  | group phrase => exact ⟨.opening :: phrase.tokens, .closing, rfl, rfl⟩
  | call f n arguments accepts =>
    exact ⟨.segment f.name :: .opening :: arguments.tokens, .closing, rfl, rfl⟩

lemma Operand.after_tokens (front : List Token) (a : Operand) :
    Phase.after (front ++ a.tokens).getLast? = .afterOperand := by
  obtain ⟨inner, t, htokens, ht⟩ := a.exists_token
  rwa [htokens, ← List.append_assoc, List.getLast?_concat]

lemma Chain.exists_last (chain : Chain) :
    ∃ (front : List Token) (a : Operand), chain.tokens = front ++ a.tokens := by
  cases chain with
  | operand last => exact ⟨[], last, by simp [Chain.tokens]⟩
  | join chain op last => exact ⟨chain.tokens ++ [.operator op], last, by simp [Chain.tokens]⟩

lemma Phrase.exists_last (p : Phrase) :
    ∃ (front : List Token) (a : Operand), p.tokens = front ++ a.tokens := by
  cases p with
  | plain chain => exact chain.exists_last
  | signed sign isSign chain =>
    obtain ⟨front, a, hchain⟩ := chain.exists_last
    exact ⟨.operator sign :: front, a, by simp [Phrase.tokens, hchain]⟩

lemma Viable.exists_last {ts : List Token} {groups : List Group}
    (h : Viable ts groups .afterOperand) :
    ∃ (front : List Token) (a : Operand), ts = front ++ a.tokens := by
  obtain ⟨opened, begins⟩ := h
  obtain ⟨p, rfl⟩ := begins.exists_phrase
  obtain ⟨front, a, hp⟩ := p.exists_last
  exact ⟨_ ++ front, a, by rw [hp, List.append_assoc]⟩

/-- Whether lexemes end with an operand. -/
def EndsOperand (ls : List Lexeme) : Prop :=
  ∃ (front : List Token) (a : Operand), ls.map (·.token) = front ++ a.tokens

/-! ### What is known of the lexemes -/

namespace Tracks

variable (h : Tracks ls c)
include h

/-- The phase knows whether an operand has just ended. -/
lemma endsOperand_iff : EndsOperand ls ↔ c.phase = .afterOperand := by
  constructor
  · rintro ⟨front, a, htokens⟩
    rw [h.phase, previous?, htokens, a.after_tokens]
  · intro hphase
    have hviable := h.viable
    rw [hphase] at hviable
    exact hviable.exists_last

lemma afterOperator_iff :
    c.phase = .afterOperator ↔ ∃ op, previous? ls = some (.operator op) := by
  rw [h.phase, Phase.after_eq_afterOperator_iff]

lemma afterOpening_iff : c.phase = .afterOpening ↔ previous? ls = some .opening := by
  rw [h.phase, Phase.after_eq_afterOpening_iff]

lemma start_iff : c.phase = .start ↔ ls = [] ∨ previous? ls = some .comma := by
  rw [h.phase, Phase.after_eq_start_iff, previous?, List.getLast?_eq_none_iff, List.map_eq_nil_iff]

lemma allowsSign_iff :
    c.phase.allowsSign ↔ ls = [] ∨ previous? ls = some .opening ∨
      previous? ls = some .comma := by
  have hphase : c.phase.allowsSign ↔ c.phase = .start ∨ c.phase = .afterOpening := by
    cases c.phase <;> simp [Phase.allowsSign]
  rw [hphase, h.start_iff, h.afterOpening_iff]
  tauto

/-- The innermost open parenthesis is at the place of the first group. -/
lemma inside {callee : Option Builtin} {begun openAt : Nat} {groups : List Group}
    (hgroups : c.groups = ⟨callee, begun, openAt⟩ :: groups) :
    ∃ outer n, Inside ls outer openAt n ∧ callee? (outer.map (·.token)) = callee ∧
      begun = n + 1 := by
  have hopens := h.opens
  rw [hgroups] at hopens
  cases hopens with
  | inner start stop opens hinner => exact ⟨_, _, ⟨stop, _, rfl, hinner⟩, rfl, rfl⟩

lemma exists_balanced (hgroups : c.groups = []) : ∃ n, Balanced (ls.map (·.token)) n := by
  have hopens := h.opens
  rw [hgroups] at hopens
  cases hopens with
  | outermost hbalanced => exact ⟨_, hbalanced⟩

/-- Where the first group is no call, the innermost open parenthesis belongs to none. -/
lemma outside (hnone : ∀ f begun openAt groups, c.groups ≠ ⟨some f, begun, openAt⟩ :: groups) :
    (∃ n, Balanced (ls.map (·.token)) n) ∨
      ∃ outer openAt n, Inside ls outer openAt n ∧ callee? (outer.map (·.token)) = none := by
  cases hgroups : c.groups with
  | nil => exact .inl (h.exists_balanced hgroups)
  | cons group groups =>
    obtain ⟨_ | f, begun, openAt⟩ := group
    · obtain ⟨outer, n, hinside, hcallee, -⟩ := h.inside hgroups
      exact .inr ⟨outer, openAt, n, hinside, hcallee⟩
    · exact absurd hgroups (hnone f begun openAt groups)

/-- Where no mark is left, no parenthesis is open. -/
lemma groups_eq_nil (hnone : ∀ waiting group groups,
      c.drain.waiting = .mark :: waiting → c.groups ≠ group :: groups) : c.groups = [] := by
  cases hgroups : c.groups with
  | nil => rfl
  | cons group groups =>
    have hmark : .mark ∈ c.waiting := by
      rw [← List.count_pos_iff, h.marks, hgroups]
      exact Nat.succ_pos _
    obtain ⟨waiting, hwaiting⟩ := Waiting.exists_of_mark_mem hmark
    exact absurd hgroups (hnone waiting group groups hwaiting)

end Tracks

/-! ### Statements -/

variable {statement : String} {p : Program}

/-- A statement that is read to its end consists of lexemes. -/
lemma exists_tracks_of_consume
    (h : Conversion.initial.consume (words statement) = (c, none)) :
    ∃ ls : List Lexeme, items statement = ls.map .lexeme ∧ Tracks ls c := by
  have hwords : Word.ofItems (items statement) = words statement ++ [] := by
    rw [List.append_nil, words]
  obtain ⟨ls, is, hitems, his, htracks⟩ := Tracks.initial.consume hwords h
  rcases Word.heads_ofItems is with rfl | ⟨v, rest, -, hcons⟩
  · exact ⟨ls, by rwa [List.append_nil] at hitems, htracks⟩
  · cases his.symm.trans hcons

/-- A statement that has a program is legal and spelled like a sentence. -/
lemma exists_sentence_of_parse (h : parse statement = .ok p) :
    Legal statement ∧ ∃ s : Sentence, tokens statement = s.tokens := by
  obtain ⟨c, hconsume, hprogram⟩ := parse_eq_ok_iff.mp h
  obtain ⟨ls, hitems, htracks⟩ := exists_tracks_of_consume hconsume
  refine ⟨legal_of_items hitems, ?_⟩
  have hviable := htracks.viable
  rw [← tokens_of_items hitems] at hviable
  unfold Conversion.program at hprogram
  split at hprogram
  case isTrue => cases hprogram
  case isFalse hphase =>
    cases hgroups : c.groups with
    | nil =>
      rw [hgroups] at hviable
      exact hviable.exists_sentence hphase
    | cons group groups =>
      rw [hgroups] at hprogram
      cases hprogram

/-- The program of a statement is that of the sentence that it is spelled like. -/
lemma exists_program_of_parse (h : parse statement = .ok p) :
    Legal statement ∧ ∃ s : Sentence, tokens statement = s.tokens ∧ s.program = p := by
  obtain ⟨hlegal, s, htokens⟩ := exists_sentence_of_parse h
  exact ⟨hlegal, s, htokens, Except.ok.inj ((parse_of_tokens hlegal s htokens).symm.trans h)⟩

end InfixCalc

import InfixCalc.Proofs.Conversion.Annotation
import InfixCalc.Proofs.Conversion.Failure

/-!
# The log of a compilation

A compilation tells how it ends, and before that of every operator that it reads. A statement with a
fault is read up to the fault, so its log stops there.
-/

namespace InfixCalc

/-- The lexemes of a statement that are read before the first fault. -/
def ReadUpTo (statement : String) (ls : List Lexeme) : Prop :=
  ∃ c rest, items statement = ls.map .lexeme ++ rest ∧
    words statement = Word.ofLexemes ls ++ Word.ofItems rest ∧
    Conversion.initial.consume (Word.ofLexemes ls) = (c, none) ∧
    ∀ w ∈ (Word.ofItems rest).head?, ∃ fault, c.read w = .error fault

/-- How a compilation ends. -/
def verdict (statement : String) : Event :=
  match parse statement with
  | .ok p => .compiled statement p.code.length
  | .error r => .rejected statement r.cause

/-- Only how a compilation ends is told to those who are not interested in every move. -/
lemma filter_level_debug (moves : List Move) (statement : String) :
    (moves.map Move.event ++ [verdict statement]).filter (·.level = .debug)
      = [verdict statement] := by
  have hmoves : (moves.map Move.event).filter (·.level = .debug) = [] := by
    rw [List.filter_eq_nil_iff]
    rintro _ h
    obtain ⟨m, -, rfl⟩ := List.mem_map.mp h
    cases m <;> simp [Move.event, Event.level]
  have hverdict : (verdict statement).level = .debug := by
    unfold verdict
    cases parse statement <;> rfl
  rw [List.filter_append, hmoves, List.filter_cons_of_pos (by simpa using hverdict),
    List.nil_append, List.filter_nil]

lemma message_verdict (statement : String) :
    (verdict statement).message = match parse statement with
      | .ok p => "compiled " ++ Text.quote statement ++ " into " ++ toString p.code.length
          ++ " instruction(s)"
      | .error r => "rejected " ++ Text.quote statement ++ ": " ++ r.message := by
  unfold verdict
  cases parse statement <;> rfl

variable {statement : String} {c : Conversion} {fault? : Option Fault} {p : Program}

lemma log_compile (h : Conversion.initial.consume (words statement) = (c, fault?)) :
    (compile statement).log = c.log ++ [verdict statement] := by
  unfold verdict parse compile
  rw [h]
  cases fault? with
  | some fault => rfl
  | none => cases hprogram : c.program <;> simp [hprogram, Except.mapError]

/-- What is read before the first fault, if there is one, is read without a fault. -/
lemma Conversion.exists_append_of_consume {ws : List Word} {c₀ : Conversion}
    (h : c₀.consume ws = (c, fault?)) :
    ∃ before after, ws = before ++ after ∧ c₀.consume before = (c, none) ∧
      (∀ w ∈ after.head?, ∃ fault, c.read w = .error fault) ∧ (fault? = none → after = []) := by
  cases fault? with
  | none => exact ⟨ws, [], (List.append_nil _).symm, h, by simp, fun _ => rfl⟩
  | some fault =>
    obtain ⟨before, w, after, hwords, hconsume, hread⟩ := exists_of_consume_eq_some h
    refine ⟨before, w :: after, hwords, hconsume, ?_, by rintro ⟨⟩⟩
    rintro _ ⟨⟩
    exact ⟨fault, hread⟩

/-- An annotation can be found for what is read before the first fault. -/
lemma exists_annotates (h : Conversion.initial.consume (words statement) = (c, fault?)) :
    ∃ ls stack moves, ReadUpTo statement ls ∧ Annotates (ls.map (·.token)) c stack moves ∧
      (fault? = none → items statement = ls.map .lexeme) := by
  obtain ⟨before, after, hwords, hconsume, hafter, hnone⟩ := Conversion.exists_append_of_consume h
  have hinitial : Annotated (([] : List Lexeme).map (·.token)) .initial := ⟨[], [], .initial⟩
  obtain ⟨ls, rest, hitems, rfl, rfl, stack, moves, hannotates⟩ :=
    Conversion.exists_of_consume (P := fun ls c => Annotated (ls.map (·.token)) c)
      (fun h hread hwritten => List.map_append ▸ h.step hread hwritten) hinitial hwords hconsume
  refine ⟨ls, stack, moves, ⟨c, rest, hitems, hwords, hconsume, hafter⟩, hannotates, ?_⟩
  intro hfault
  rcases Word.heads_ofItems rest with rfl | ⟨w, rest', -, hcons⟩
  · rwa [List.append_nil] at hitems
  · cases (hnone hfault).symm.trans hcons

/-- When no group is open, all operators can be applied. -/
lemma Conversion.Consistent.waiting_drain (h : c.Consistent) (hgroups : c.groups = []) :
    c.drain.waiting = [] := by
  have hmark : Waiting.AtMark c.drain.waiting := Waiting.atMark_dropWhile
  have hcount : c.drain.waiting.count .mark = 0 := by
    have hmarks := h.marks
    rw [hgroups] at hmarks
    exact (Waiting.count_mark_dropWhile rfl).trans hmarks
  cases hwaiting : c.drain.waiting with
  | nil => rfl
  | cons w waiting =>
    rw [hwaiting] at hmark hcount
    obtain rfl := hmark w rfl
    simp at hcount

/-- In the end all operators that have been read are in the program. -/
lemma Conversion.countP_isOperator_program (h : c.Consistent) (hprogram : c.program = .ok p) :
    p.code.countP Instruction.isOperator = c.operatorCount := by
  unfold program at hprogram
  split at hprogram
  · cases hprogram
  · cases hgroups : c.groups with
    | cons group groups =>
      rw [hgroups] at hprogram
      cases hprogram
    | nil =>
      rw [hgroups] at hprogram
      cases hprogram
      rw [← operatorCount_drain, operatorCount, h.waiting_drain hgroups]
      rfl

/-- The log of a compilation tells of the operators up to the first fault that each begins to wait,
and which ones are applied before it in its group and argument, and last of all how the compilation
ends. If the statement has a program, every one of its operators is in the program. -/
theorem log_compile_faithful (statement : String) :
    ∃ ls moves, ReadUpTo statement ls ∧
      (compile statement).log = moves.map Move.event ++ [verdict statement] ∧
      (compile statement).log.filter (·.level = .debug) = [verdict statement] ∧
      ((verdict statement).message = match parse statement with
        | .ok p => "compiled " ++ Text.quote statement ++ " into " ++ toString p.code.length
            ++ " instruction(s)"
        | .error r => "rejected " ++ Text.quote statement ++ ": " ++ r.message) ∧
      Faithful (ls.map (·.token)) moves ∧
      ∀ p, parse statement = .ok p → ls.map (·.token) = tokens statement ∧
        p.code.countP Instruction.isOperator = (occurrences (tokens statement)).length := by
  rcases hconsume : Conversion.initial.consume (words statement) with ⟨c, fault?⟩
  obtain ⟨ls, stack, moves, hread, hannotates, hitems⟩ := exists_annotates hconsume
  have hlog := log_compile hconsume
  rw [hannotates.log] at hlog
  refine ⟨ls, moves, hread, hlog, ?_, message_verdict statement, hannotates.faithful, ?_⟩
  · rw [hlog, filter_level_debug]
  · intro p hparse
    obtain ⟨c', hconsume', hprogram⟩ := parse_eq_ok_iff.mp hparse
    cases hconsume.symm.trans hconsume'
    have htokens := tokens_of_items (hitems rfl)
    have hconsistent := Conversion.consistent_initial.consume hconsume'
    refine ⟨htokens.symm, ?_⟩
    rw [Conversion.countP_isOperator_program hconsistent hprogram, hannotates.count, htokens]

example : (compile "1 - 2 * 3 - 4").log = [.shifted .sub, .shifted .mul, .reduced .mul .sub,
    .reduced .sub .sub, .shifted .sub, .compiled "1 - 2 * 3 - 4" 7] := by
  decide +kernel

end InfixCalc

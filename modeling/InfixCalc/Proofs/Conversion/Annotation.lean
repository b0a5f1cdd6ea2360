import InfixCalc.Proofs.Conversion.Invariant
import InfixCalc.Proofs.Conversion.Moves
import Mathlib.Data.List.ReduceOption

/-!
# Annotated conversions

A stack of waiting operators does not tell where in the statement they stand, but places can be
found for them that are true to the tokens read so far. `Annotates ts c stack moves` says that
`stack` is the stack of the conversion `c` with such places, and `moves` its log. Every word that is
read keeps an annotation.
-/

namespace InfixCalc

/-- The entry of the stack that an operator with its place stands for, or the lack of one. -/
def Waiting.ofOccurrence? : Option Occurrence → Waiting
  | some o => .operator o.op
  | none => .mark

/-- A stack of operators with their places, and of marks, that is true to some tokens. -/
def Held : List (Option Occurrence) → List Token → Prop
  | [], _ => True
  | some o :: stack, ts => OpenAt ts o ∧ Held stack ts
  | none :: stack, ts => ∃ outer inner n, ts = outer ++ .opening :: inner ∧ Balanced inner n ∧
      Held stack outer

/-! ### Stacks with places -/

section Held

variable {ts us : List Token} {o : Occurrence} {stack : List (Option Occurrence)}
  {p : Option Occurrence → Bool}

lemma Held.append (h : Held stack ts)
    (hus : ∀ inner n, Balanced inner n → Balanced (inner ++ us) n) : Held stack (ts ++ us) := by
  induction stack with
  | nil => trivial
  | cons entry stack ih =>
    cases entry with
    | some o => exact ⟨h.1.append hus, ih h.2⟩
    | none =>
      obtain ⟨outer, inner, n, rfl, hinner, hstack⟩ := h
      exact ⟨outer, inner ++ us, n, by simp, hus inner n hinner, hstack⟩

lemma Held.dropWhile (h : Held stack ts) (hp : p none = false) : Held (stack.dropWhile p) ts := by
  induction stack with
  | nil => trivial
  | cons entry stack ih =>
    cases entry with
    | some o =>
      rw [List.dropWhile_cons]
      split_ifs
      · exact ih h.2
      · exact h
    | none =>
      rw [List.dropWhile_cons, hp, if_neg Bool.false_ne_true]
      exact h

lemma Held.openAt (h : Held stack ts) (hp : p none = false) (ho : some o ∈ stack.takeWhile p) :
    OpenAt ts o := by
  induction stack with
  | nil => cases ho
  | cons entry stack ih =>
    rw [List.takeWhile_cons] at ho
    cases entry with
    | some o' =>
      split_ifs at ho
      · rcases List.mem_cons.mp ho with heq | ho
        · exact Option.some.inj heq ▸ h.1
        · exact ih h.2 ho
      · cases ho
    | none =>
      rw [hp] at ho
      cases ho

lemma Held.place_lt (h : Held stack ts) (ho : some o ∈ stack) : o.place < ts.length := by
  induction stack generalizing ts with
  | nil => cases ho
  | cons entry stack ih =>
    cases entry with
    | some o' =>
      rcases List.mem_cons.mp ho with heq | ho
      · exact Option.some.inj heq ▸ h.1.place_lt
      · exact ih h.2 ho
    | none =>
      obtain ⟨outer, inner, n, rfl, -, hstack⟩ := h
      have hlt := ih hstack (List.mem_of_ne_of_mem (Option.some_ne_none o) ho)
      rw [List.length_append]
      exact Nat.lt_add_right _ hlt

/-- After a closing parenthesis the operators outside of it go on waiting. -/
lemma Held.closing (h : Held (none :: stack) ts) : Held stack (ts ++ [.closing]) := by
  obtain ⟨outer, inner, n, rfl, hinner, hstack⟩ := h
  rw [List.append_assoc]
  apply hstack.append
  intro us m hus
  exact hus.group hinner

/-- A comma begins a new argument where no operator is left of the one before. -/
lemma Held.comma (h : Held stack ts)
    (hmark : Waiting.AtMark (stack.map Waiting.ofOccurrence?)) : Held stack (ts ++ [.comma]) := by
  cases stack with
  | nil => trivial
  | cons entry stack =>
    cases entry with
    | some o => cases hmark _ rfl
    | none =>
      obtain ⟨outer, inner, n, rfl, hinner, hstack⟩ := h
      exact ⟨outer, inner ++ [.comma], n + 1, by simp, hinner.comma, hstack⟩

end Held

lemma Waiting.operators_map_ofOccurrence? (stack : List (Option Occurrence)) :
    operators (stack.map ofOccurrence?) = stack.reduceOption.map Occurrence.op := by
  induction stack with
  | nil => rfl
  | cons entry stack ih =>
    cases entry with
    | some o =>
      rw [List.map_cons, List.reduceOption_cons_of_some, List.map_cons, ← ih]
      rfl
    | none =>
      rw [List.map_cons, List.reduceOption_cons_of_none, ← ih]
      rfl

lemma Conversion.log_receive (c : Conversion) (op : Operator) (isSign : Bool) :
    (c.receive op isSign).log = c.log
      ++ ((Waiting.operators (c.waiting.takeWhile (Waiting.yieldsTo op))).map (.reduced · op)
        ++ [.shifted op]) := by
  rw [receive, log_shift, log_reduce, ← List.append_assoc]
  cases isSign <;> rfl

/-! ### Number of operators -/

/-- Whether an instruction is an operator. -/
def Instruction.isOperator : Instruction → Bool
  | .operator _ => true
  | _ => false

lemma Instruction.countP_isOperator_map (ops : List Operator) :
    (ops.map Instruction.operator).countP isOperator = ops.length := by
  induction ops with
  | nil => rfl
  | cons op ops ih => rw [List.map_cons, List.countP_cons_of_pos rfl, ih, List.length_cons]

lemma Group.countP_isOperator_ending {g : Group} {code : List Instruction}
    (h : g.ending = .ok code) : code.countP Instruction.isOperator = 0 := by
  unfold ending at h
  split at h
  · cases h
    rfl
  · split at h
    · split at h <;> cases h
      rfl
    · cases h
      rfl

namespace Conversion

variable {c : Conversion}

/-- How many operators have been applied or wait. -/
def operatorCount (c : Conversion) : Nat :=
  c.code.countP Instruction.isOperator + (Waiting.operators c.waiting).length

lemma operatorCount_emit {code : List Instruction} (h : code.countP Instruction.isOperator = 0)
    (c : Conversion) : (c.emit code).operatorCount = c.operatorCount := by
  rw [operatorCount, code_emit, List.countP_append, h, Nat.add_zero]
  rfl

lemma operatorCount_drain : c.drain.operatorCount = c.operatorCount := by
  have h := Waiting.length_operators_takeWhile_add Waiting.isOperator c.waiting
  rw [operatorCount, code_drain, List.countP_append, Instruction.countP_isOperator_map,
    operatorCount]
  simp only [drain]
  omega

lemma operatorCount_receive (op : Operator) (isSign : Bool) :
    (c.receive op isSign).operatorCount = c.operatorCount + 1 := by
  have h := Waiting.length_operators_takeWhile_add (Waiting.yieldsTo op) c.waiting
  have hwaiting : (if isSign then c.emit [.number 0] else c).waiting = c.waiting := by
    cases isSign <;> rfl
  have hcount : (if isSign then c.emit [.number 0] else c).operatorCount = c.operatorCount := by
    cases isSign with
    | true => exact operatorCount_emit rfl c
    | false => rfl
  rw [operatorCount, hwaiting] at hcount
  rw [operatorCount, waiting_receive, Waiting.operators_cons_operator, List.length_cons, receive,
    code_shift, code_reduce, List.countP_append, hwaiting, Instruction.countP_isOperator_map]
  omega

end Conversion

/-! ### Annotations -/

/-- What a conversion has come to with some tokens, with places for all that it knows of them. -/
structure Annotates (ts : List Token) (c : Conversion) (stack : List (Option Occurrence))
    (moves : List Move) : Prop where
  log : c.log = moves.map Move.event
  waiting : c.waiting = stack.map Waiting.ofOccurrence?
  held : Held stack ts
  faithful : Faithful ts moves
  waits : ∀ o, some o ∈ stack → Move.Waits moves o
  nodup : stack.reduceOption.Nodup
  count : c.operatorCount = (occurrences ts).length

/-- What a conversion has come to with some tokens, if places can be found for all of it. -/
def Annotated (ts : List Token) (c : Conversion) : Prop :=
  ∃ stack moves, Annotates ts c stack moves

namespace Annotates

variable {ts us : List Token} {c c' : Conversion} {stack stack' : List (Option Occurrence)}
  {moves : List Move}

lemma initial : Annotates [] .initial [] [] :=
  ⟨rfl, rfl, trivial, .nil, by simp, .nil, rfl⟩

/-- Nothing is told of tokens that are no operators. -/
lemma quiet (h : Annotates ts c stack moves) (hus : ∀ t ∈ us, t.operator? = none)
    (hlog : c'.log = c.log) (hwaiting : c'.waiting = stack'.map Waiting.ofOccurrence?)
    (hheld : Held stack' (ts ++ us)) (hsub : stack'.reduceOption.Sublist stack.reduceOption)
    (hcount : c'.operatorCount = c.operatorCount) :
    Annotates (ts ++ us) c' stack' moves where
  log := hlog.trans h.log
  waiting := hwaiting
  held := hheld
  faithful := h.faithful.append hus
  waits o ho := h.waits o (List.reduceOption_mem_iff.mp
    (hsub.subset (List.reduceOption_mem_iff.mpr ho)))
  nodup := h.nodup.sublist hsub
  count := by rw [hcount, h.count, occurrences_append_of_none hus]

/-- An operator applies those that yield to it, and waits. -/
lemma receive (h : Annotates ts c stack moves) (op : Operator) (isSign : Bool) :
    Annotated (ts ++ [.operator op]) (c.receive op isSign) := by
  set yields : Option Occurrence → Bool := fun entry =>
    (Waiting.ofOccurrence? entry).yieldsTo op
  set incoming : Occurrence := ⟨op, ts.length⟩
  set reduced := (stack.takeWhile yields).reduceOption with hreduced
  set rest := stack.dropWhile yields with hrest
  have hsplit : reduced ++ rest.reduceOption = stack.reduceOption := by
    rw [hreduced, hrest, ← List.reduceOption_append, List.takeWhile_append_dropWhile]
  have hnodup := h.nodup
  rw [← hsplit] at hnodup
  have hmem : ∀ o, o ∈ reduced → some o ∈ stack.takeWhile yields :=
    fun o => List.reduceOption_mem_iff.mp
  have hlt : ∀ o ∈ reduced, o.place < ts.length :=
    fun o ho => h.held.place_lt ((List.takeWhile_prefix _).subset (hmem o ho))
  have hfaithful := h.faithful.receive
    (fun o ho => h.waits o ((List.takeWhile_prefix _).subset (hmem o ho)))
    (fun o ho => h.held.openAt rfl (hmem o ho)) (List.nodup_append.mp hnodup).1 op
  refine ⟨some incoming :: rest, moves ++ Move.receive reduced incoming, ?_⟩
  constructor
  case log =>
    rw [Conversion.log_receive, h.log, h.waiting, List.takeWhile_map,
      Waiting.operators_map_ofOccurrence?, Move.receive, List.map_append, List.map_append,
      List.map_map, List.map_map]
    rfl
  case waiting =>
    rw [Conversion.waiting_receive, h.waiting, List.dropWhile_map]
    rfl
  case held =>
    exact ⟨⟨ts, [], rfl, rfl, .nil⟩,
      (h.held.dropWhile rfl).append fun inner n hinner => hinner.operator op⟩
  case faithful => exact hfaithful
  case waits =>
    intro o ho
    rcases List.mem_cons.mp ho with heq | ho
    · cases heq
      refine Move.waits_receive ?_ ?_
      · exact fun b hb => Nat.lt_irrefl _ (h.faithful.place_lt_of_reduce hb)
      · exact fun hmem => Nat.lt_irrefl _ (hlt incoming hmem)
    · refine (h.waits o ((List.dropWhile_suffix _).subset ho)).receive ?_ incoming
      exact fun hmem => (List.nodup_append.mp hnodup).2.2 o hmem o
        (List.reduceOption_mem_iff.mpr ho) rfl
  case nodup =>
    rw [List.reduceOption_cons_of_some, List.nodup_cons]
    refine ⟨fun hmem => ?_, (List.nodup_append.mp hnodup).2.1⟩
    have hplace := h.held.place_lt
      ((List.dropWhile_suffix _).subset (List.reduceOption_mem_iff.mp hmem))
    exact Nat.lt_irrefl _ hplace
  case count =>
    rw [Conversion.operatorCount_receive, h.count, occurrences_append_operator, List.length_append,
      List.length_singleton]

/-- Only operators and marks that were on the stack are there after the operators of a group have
been applied. -/
lemma exists_drain (h : Annotates ts c stack moves) :
    ∃ stack', c.drain.waiting = stack'.map Waiting.ofOccurrence? ∧ Held stack' ts ∧
      stack'.reduceOption.Sublist stack.reduceOption := by
  refine ⟨stack.dropWhile (Waiting.isOperator ∘ Waiting.ofOccurrence?), ?_, h.held.dropWhile rfl,
    (List.dropWhile_sublist _).filterMap id⟩
  rw [← List.dropWhile_map, ← h.waiting]
  rfl

end Annotates

/-- Every word leads to an annotated conversion again. -/
theorem Annotated.step {ts : List Token} {c c' : Conversion} {w : Word} {ls : List Lexeme}
    (hc : Annotated ts c) (hstep : Conversion.Step c w c') (hw : w.Written ls) :
    Annotated (ts ++ ls.map (·.token)) c' := by
  obtain ⟨stack, moves, h⟩ := hc
  cases hstep with
  | @operator op start phase hnext =>
    cases hw
    have hphase : Annotates ts { c with phase } stack moves :=
      ⟨h.log, h.waiting, h.held, h.faithful, h.waits, h.nodup, h.count⟩
    exact hphase.receive op c.phase.allowsSign
  | opening hphase =>
    cases hw
    refine ⟨none :: stack, moves, h.quiet (by simp [Token.operator?]) rfl ?_ ?_ ?_ rfl⟩
    · exact congrArg (Waiting.mark :: ·) h.waiting
    · exact ⟨ts, [], 0, rfl, .nil, h.held⟩
    · exact List.Sublist.refl _
  | closing hphase hwaiting hgroups hending =>
    cases hw
    obtain ⟨stack', hstack', hheld, hsub⟩ := h.exists_drain
    rw [hwaiting] at hstack'
    obtain ⟨entry, stack', rfl, hmark, hrest⟩ := List.map_eq_cons_iff.mp hstack'.symm
    cases entry with
    | some o => cases hmark
    | none =>
      refine ⟨stack', moves, h.quiet (by simp [Token.operator?]) rfl hrest.symm hheld.closing
        hsub ?_⟩
      have hdrain := @Conversion.operatorCount_drain c
      rw [Conversion.operatorCount, hwaiting, Waiting.operators_cons_mark] at hdrain
      rw [Conversion.operatorCount_emit (Group.countP_isOperator_ending hending)]
      exact hdrain
  | comma hphase hgroups =>
    cases hw
    obtain ⟨stack', hstack', hheld, hsub⟩ := h.exists_drain
    refine ⟨stack', moves, h.quiet (by simp [Token.operator?]) rfl hstack' ?_ hsub ?_⟩
    · refine hheld.comma (hstack' ▸ ?_)
      exact Waiting.atMark_dropWhile
    · exact Conversion.operatorCount_drain
  | number hphase | «variable» hphase =>
    cases hw
    refine ⟨stack, moves, h.quiet (by simp [Token.operator?]) rfl h.waiting ?_ (.refl _) ?_⟩
    · exact h.held.append fun inner n hinner => hinner.segment _
    · exact Conversion.operatorCount_emit rfl _
  | @call f start openAt hphase =>
    cases hw
    refine ⟨none :: stack, moves, h.quiet (by simp [Token.operator?]) rfl ?_ ?_ ?_ rfl⟩
    · exact congrArg (Waiting.mark :: ·) h.waiting
    · refine ⟨ts ++ [.segment f.name], [], 0, by simp, .nil, ?_⟩
      exact h.held.append fun inner n hinner => hinner.segment _
    · exact List.Sublist.refl _

end InfixCalc

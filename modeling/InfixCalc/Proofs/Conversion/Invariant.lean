import InfixCalc.Proofs.Grammar.Tracking
import InfixCalc.Proofs.Machine.Depth
import Mathlib.Data.List.Chain

/-!
# The state of a conversion

The four parts of a conversion depend on each other. There is a mark on the stack of operators for
every open group. No operator waits above one that should have been applied before it, and none
waits where a sign may stand. The program so far leaves the left operands of the waiting operators,
the arguments that are complete, and the operand that has just ended, if one has. Every word that is
read keeps all of this, in groups of any depth.
-/

namespace InfixCalc

/-- Whether an entry can wait right above another one: it is not an operator before which the other
one is applied. -/
def Waiting.RestsOn (upper lower : Waiting) : Prop :=
  ∀ op ∈ upper.operator?, lower.yieldsTo op = false

namespace Conversion

/-- How many arguments are complete in open groups. -/
def completed : List Group → Int
  | [] => 0
  | g :: groups => (g.begun - 1 : Int) + completed groups

/-- How the parts of a conversion depend on each other. -/
structure Consistent (c : Conversion) : Prop where
  /-- The marks are those of the open groups. -/
  marks : c.waiting.count .mark = c.groups.length
  rests : c.waiting.IsChain Waiting.RestsOn
  /-- Where a sign may stand, no operator waits in the innermost group. -/
  atMark : c.phase.allowsSign → Waiting.AtMark c.waiting
  /-- The numbers that the program so far leaves on the stack are all accounted for. -/
  effect : effect c.code = (Waiting.operators c.waiting).length + completed c.groups
    + if c.phase = .afterOperand then 1 else 0
  /-- Only calls have more than one argument. -/
  plain : ∀ g ∈ c.groups, g.callee = none → g.begun = 1

lemma completed_cons (g : Group) (groups : List Group) :
    completed (g :: groups) = g.begun - 1 + completed groups := rfl

end Conversion

/-! ### Waiting operators -/

namespace Waiting

variable {ws : List Waiting} {p : Waiting → Bool}

lemma operators_cons_mark (ws : List Waiting) : operators (.mark :: ws) = operators ws := rfl

lemma isChain_dropWhile (h : ws.IsChain RestsOn) : (ws.dropWhile p).IsChain RestsOn :=
  h.suffix (List.dropWhile_suffix p)

/-- An operator can wait once those are applied that yield to it. -/
lemma isChain_operator (h : ws.IsChain RestsOn) (op : Operator) :
    (.operator op :: ws.dropWhile (yieldsTo op)).IsChain RestsOn := by
  refine List.isChain_cons.mpr ⟨?_, isChain_dropWhile h⟩
  rintro lower hlower _ ⟨⟩
  have hhead := List.head?_dropWhile_not (yieldsTo op) ws
  rw [Option.mem_def.mp hlower] at hhead
  exact hhead

lemma isChain_mark (h : ws.IsChain RestsOn) : (.mark :: ws).IsChain RestsOn := by
  refine List.isChain_cons.mpr ⟨?_, h⟩
  rintro lower - _ ⟨⟩

lemma atMark_dropWhile : AtMark (ws.dropWhile isOperator) := by
  intro w hw
  have hhead := List.head?_dropWhile_not isOperator ws
  rw [Option.mem_def.mp hw] at hhead
  cases w with
  | operator op => cases hhead
  | mark => rfl

/-- Operators are either applied or go on waiting. -/
lemma length_operators_takeWhile_add (p : Waiting → Bool) (ws : List Waiting) :
    (operators (ws.takeWhile p)).length + (operators (ws.dropWhile p)).length
      = (operators ws).length := by
  rw [← List.length_append, operators, operators, ← List.filterMap_append,
    List.takeWhile_append_dropWhile, operators]

end Waiting

lemma effect_operators (ops : List Operator) : effect (ops.map .operator) = -ops.length := by
  induction ops with
  | nil => rfl
  | cons op ops ih =>
    rw [List.map_cons, effect_cons, ih, Instruction.stackEffect, List.length_cons]
    omega

/-- A call replaces its arguments by one number. -/
lemma Group.effect_ending {g : Group} {code : List Instruction} (h : g.ending = .ok code)
    (hplain : g.callee = none → g.begun = 1) : effect code + (g.begun - 1) = 0 := by
  obtain ⟨_ | f, begun, start⟩ := g
  · obtain rfl : begun = 1 := hplain rfl
    cases h
    rfl
  · have hcode : code = [.call f begun] := by
      simp only [ending] at h
      split at h
      · split at h <;> cases h
        rfl
      · cases h
        rfl
    rw [hcode, effect_cons, effect_nil, Instruction.stackEffect]
    dsimp only
    omega

namespace Conversion

variable {c c' : Conversion} {w : Word} {ws : List Word}

/-- Every operator that is applied takes a number from the stack. -/
lemma effect_drain :
    effect c.drain.code + (Waiting.operators c.waiting).length
      = effect c.code + (Waiting.operators c.drain.waiting).length := by
  have h := Waiting.length_operators_takeWhile_add Waiting.isOperator c.waiting
  rw [code_drain, effect_append, effect_operators]
  simp only [drain]
  omega

lemma waiting_receive (op : Operator) (isSign : Bool) :
    (c.receive op isSign).waiting
      = .operator op :: c.waiting.dropWhile (Waiting.yieldsTo op) := by
  cases isSign <;> rfl

lemma effect_receive (op : Operator) (isSign : Bool) :
    InfixCalc.effect (c.receive op isSign).code + (Waiting.operators c.waiting).length + 1
      = effect c.code + (if isSign then 1 else 0)
        + (Waiting.operators (c.receive op isSign).waiting).length := by
  have h := Waiting.length_operators_takeWhile_add (Waiting.yieldsTo op) c.waiting
  rw [waiting_receive, Waiting.operators_cons_operator, List.length_cons, receive, code_shift,
    code_reduce, effect_append, effect_operators]
  cases isSign with
  | true =>
    have hemit : (c.emit [.number 0]).waiting = c.waiting := rfl
    rw [if_pos rfl, if_pos rfl, hemit, code_emit, effect_append, effect_cons, effect_nil,
      Instruction.stackEffect]
    omega
  | false =>
    rw [if_neg Bool.false_ne_true, if_neg Bool.false_ne_true]
    omega

lemma consistent_initial : Consistent .initial :=
  ⟨rfl, .nil, fun _ => by rintro w ⟨⟩, rfl, by rintro g ⟨⟩⟩

namespace Step

lemma rests (h : Step c w c') (hc : c.Consistent) : c'.waiting.IsChain Waiting.RestsOn := by
  cases h with
  | @operator op start phase hnext =>
    rw [waiting_receive]
    exact Waiting.isChain_operator hc.rests op
  | opening hphase => exact Waiting.isChain_mark hc.rests
  | @closing start waiting group groups code hphase hwaiting hgroups hending =>
    have hrests := Waiting.isChain_dropWhile hc.rests (p := Waiting.isOperator)
    change c.drain.waiting.IsChain _ at hrests
    rw [hwaiting] at hrests
    exact hrests.tail
  | comma hphase hgroups => exact Waiting.isChain_dropWhile hc.rests
  | number hphase | «variable» hphase => exact hc.rests
  | call hphase => exact Waiting.isChain_mark hc.rests

lemma atMark (h : Step c w c') (hsign : c'.phase.allowsSign) : Waiting.AtMark c'.waiting := by
  cases h with
  | operator hnext =>
    obtain ⟨-, rfl⟩ := Phase.next_operator_eq_ok_iff.mp hnext
    rw [phase_receive] at hsign
    cases hsign
  | opening hphase | call hphase =>
    rintro _ ⟨⟩
    rfl
  | closing hphase hwaiting hgroups hending =>
    change c.phase.allowsSign at hsign
    rw [hphase] at hsign
    cases hsign
  | comma hphase hgroups => exact Waiting.atMark_dropWhile
  | number hphase | «variable» hphase => cases hsign

lemma plain (h : Step c w c') (hc : c.Consistent) :
    ∀ g ∈ c'.groups, g.callee = none → g.begun = 1 := by
  have hplain := hc.plain
  cases h with
  | operator hnext =>
    rw [groups_receive]
    exact hplain
  | opening hphase | call hphase => exact List.forall_mem_cons.mpr ⟨fun _ => rfl, hplain⟩
  | closing hphase hwaiting hgroups hending =>
    rw [hgroups] at hplain
    exact (List.forall_mem_cons.mp hplain).2
  | comma hphase hgroups =>
    rw [hgroups] at hplain
    exact List.forall_mem_cons.mpr ⟨by rintro ⟨⟩, (List.forall_mem_cons.mp hplain).2⟩
  | number hphase | «variable» hphase => exact hplain

lemma effect_eq (h : Step c w c') (hc : c.Consistent) :
    effect c'.code = (Waiting.operators c'.waiting).length + completed c'.groups
      + if c'.phase = .afterOperand then 1 else 0 := by
  have heffect := hc.effect
  cases h with
  | @operator op start phase hnext =>
    obtain ⟨hphase, rfl⟩ := Phase.next_operator_eq_ok_iff.mp hnext
    have hreceive := @effect_receive { c with phase := .afterOperator } op c.phase.allowsSign
    change _ + ((Waiting.operators c.waiting).length : Int) + 1 = effect c.code + _ + _ at hreceive
    rw [groups_receive, phase_receive, if_neg (by rintro ⟨⟩)]
    dsimp only
    rcases hphase with hphase | ⟨hsign, -⟩
    · rw [if_pos hphase] at heffect
      rw [if_neg (by rw [hphase]; rintro ⟨⟩)] at hreceive
      omega
    · rw [if_neg (Phase.ne_afterOperand_of_allowsSign hsign)] at heffect
      rw [if_pos hsign] at hreceive
      omega
  | opening hphase | call hphase =>
    rw [if_neg hphase] at heffect
    change effect c.code = _
    rw [enter, Waiting.operators_cons_mark, completed_cons, if_neg (by rintro ⟨⟩)]
    dsimp only
    omega
  | @closing start waiting group groups code hphase hwaiting hgroups hending =>
    have hdrain := @effect_drain c
    have hcall := Group.effect_ending hending
      (hc.plain group (by rw [hgroups]; exact List.mem_cons_self))
    rw [hwaiting, Waiting.operators_cons_mark] at hdrain
    rw [if_pos hphase, hgroups, completed_cons] at heffect
    rw [code_emit, effect_append]
    change effect c.drain.code + effect code = (Waiting.operators waiting).length + completed groups
      + if c.phase = .afterOperand then 1 else 0
    rw [if_pos hphase]
    omega
  | comma hphase hgroups =>
    have hdrain := @effect_drain c
    rw [if_pos hphase, hgroups, completed_cons] at heffect
    change effect c.drain.code = _
    rw [completed_cons, if_neg (by rintro ⟨⟩)]
    dsimp only at heffect ⊢
    omega
  | number hphase | «variable» hphase =>
    rw [if_neg hphase] at heffect
    rw [code_emit, effect_append]
    change effect c.code + (1 + 0) = (Waiting.operators c.waiting).length + completed c.groups
      + if Phase.afterOperand = .afterOperand then 1 else 0
    rw [if_pos rfl]
    omega

end Step

/-- Every word that is read keeps a conversion consistent. -/
theorem Consistent.step (hc : c.Consistent) (h : Step c w c') : c'.Consistent :=
  ⟨h.marks hc.marks, h.rests hc, h.atMark, h.effect_eq hc, h.plain hc⟩

theorem Consistent.consume (hc : c.Consistent) (h : c.consume ws = (c', none)) :
    c'.Consistent := by
  induction ws generalizing c with
  | nil =>
    cases h
    exact hc
  | cons w ws ih =>
    obtain ⟨next, hstep, hnext⟩ := consume_cons_eq_none_iff.mp h
    exact ih (hc.step hstep) hnext

/-- Where a mark is on top once the operators are applied, there is a group to be closed. -/
lemma Consistent.exists_group (hc : c.Consistent) {waiting : List Waiting}
    (h : c.drain.waiting = .mark :: waiting) : ∃ group groups, c.groups = group :: groups := by
  have hmarks : c.drain.waiting.count .mark = c.groups.length :=
    (Waiting.count_mark_dropWhile rfl).trans hc.marks
  rw [h, List.count_cons_self] at hmarks
  exact List.exists_cons_of_length_eq_add_one hmarks.symm

end Conversion

/-- After every word of a statement that is read without a fault, the parts of the conversion depend
on each other as they should, and a closing parenthesis that finds a mark finds a group as well. -/
theorem consistent_of_consume {statement : String} {k : Nat} {c : Conversion}
    (h : Conversion.initial.consume ((words statement).take k) = (c, none)) :
    c.Consistent ∧ ∀ waiting, c.drain.waiting = .mark :: waiting →
      ∃ group groups, c.groups = group :: groups := by
  have hc := Conversion.consistent_initial.consume h
  exact ⟨hc, fun _ => hc.exists_group⟩

/-- What has come about after the first nine words of `2 * (x + max(3, y)) - 1`. -/
def Conversion.openCall : Conversion where
  emitted := [.variable "y", .number 3, .variable "x", .number 2]
  waiting := [.mark, .operator .add, .mark, .operator .mul]
  groups := [⟨some .max, 2, 12⟩, ⟨none, 1, 4⟩]
  phase := .afterOperand
  noted := [.shifted .add, .shifted .mul]

/-- Four numbers are left by then, for two operators, one complete argument and the operand `y`. -/
theorem consistent_openCall :
    Conversion.initial.consume ((words "2 * (x + max(3, y)) - 1").take 9) = (.openCall, none) ∧
      Conversion.openCall.Consistent ∧ effect Conversion.openCall.code = 4 := by
  have hconsume : Conversion.initial.consume ((words "2 * (x + max(3, y)) - 1").take 9)
      = (.openCall, none) := by
    decide +kernel
  exact ⟨hconsume, (consistent_of_consume hconsume).1, rfl⟩

end InfixCalc

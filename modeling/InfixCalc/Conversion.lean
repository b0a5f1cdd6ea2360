import InfixCalc.Event
import InfixCalc.Phase
import InfixCalc.Program
import InfixCalc.Word

/-!
# Conversion to postfix order

A statement becomes a program in one pass over its words. Operands go to the program at once.
Operators wait on a stack until their right operand is complete: until an operator comes that binds
no tighter, or their group ends. An open parenthesis leaves a mark on this stack, and on another one
what has to be known when it is closed.

`Conversion.read` is the effect of one word, `Conversion.consume` that of a list of words up to
the first fault, and `Conversion.program` the program that has come about at the end.
-/

namespace InfixCalc

/-- An entry of the stack of waiting operators. -/
inductive Waiting where
  | operator (op : Operator)
  /-- The place where a group began. -/
  | mark
  deriving DecidableEq, Repr

namespace Waiting

/-- The operator of an entry. -/
def operator? : Waiting → Option Operator
  | .operator op => some op
  | .mark => none

/-- Whether an entry is an operator. -/
def isOperator (w : Waiting) : Bool := w.operator?.isSome

/-- Whether an entry is an operator that is applied before an incoming one. -/
def yieldsTo (incoming : Operator) (w : Waiting) : Bool := w.operator?.any (·.yieldsTo incoming)

/-- The operators among a list of entries. -/
def operators (ws : List Waiting) : List Operator := ws.filterMap operator?

end Waiting

/-- An open parenthesis. -/
structure Group where
  /-- The function that is called with what the parentheses hold. -/
  callee : Option Builtin
  /-- How many arguments have begun. -/
  begun : Nat
  /-- The place of the parenthesis. -/
  start : Nat
  deriving DecidableEq, Repr

/-- What a group adds to the program when it ends: the call of its function if it has one. -/
def Group.ending (g : Group) : Except Cause (List Instruction) :=
  match g.callee with
  | none => .ok []
  | some function =>
    match function.arity with
    | .exact expected =>
      if expected = g.begun then .ok [.call function g.begun]
      else .error (.argumentCount function.name expected g.begun)
    | .variadic => .ok [.call function g.begun]

/-- How far a statement has been converted. -/
structure Conversion where
  /-- The instructions so far, the latest one first. -/
  emitted : List Instruction
  /-- The waiting operators and the marks of open groups, the latest one first. -/
  waiting : List Waiting
  /-- The open parentheses, the innermost one first. -/
  groups : List Group
  phase : Phase
  /-- What has happened so far, the latest event first. -/
  noted : List Event
  deriving DecidableEq

namespace Conversion

/-- Before the first word. -/
def initial : Conversion := ⟨[], [], [], .start, []⟩

/-- The instructions so far, in the order in which they are carried out. -/
def code (c : Conversion) : List Instruction := c.emitted.reverse

/-- What has happened so far, in the order in which it did. -/
def log (c : Conversion) : List Event := c.noted.reverse

@[simp] theorem code_initial : initial.code = [] := rfl

@[simp] theorem log_initial : initial.log = [] := rfl

/-! ### Effects -/

/-- Add instructions to the program. -/
def emit (c : Conversion) (code : List Instruction) : Conversion :=
  { c with emitted := code.reverse ++ c.emitted }

@[simp] theorem code_emit (c : Conversion) (code : List Instruction) :
    (c.emit code).code = c.code ++ code := by
  simp [Conversion.code, emit]

@[simp] theorem log_emit (c : Conversion) (code : List Instruction) :
    (c.emit code).log = c.log := rfl

/-- Note what has happened. -/
def note (c : Conversion) (events : List Event) : Conversion :=
  { c with noted := events.reverse ++ c.noted }

@[simp] theorem code_note (c : Conversion) (events : List Event) :
    (c.note events).code = c.code := rfl

@[simp] theorem log_note (c : Conversion) (events : List Event) :
    (c.note events).log = c.log ++ events := by
  simp [log, note]

/-- Apply the waiting operators that do not wait for an incoming one. -/
def reduce (c : Conversion) (incoming : Operator) : Conversion :=
  let reduced := Waiting.operators (c.waiting.takeWhile (Waiting.yieldsTo incoming))
  { (c.note (reduced.map (.reduced · incoming))).emit (reduced.map .operator) with
    waiting := c.waiting.dropWhile (Waiting.yieldsTo incoming) }

@[simp] theorem code_reduce (c : Conversion) (incoming : Operator) :
    (c.reduce incoming).code = c.code ++
      (Waiting.operators (c.waiting.takeWhile (Waiting.yieldsTo incoming))).map .operator := by
  simp [reduce, code, emit, note]

@[simp] theorem log_reduce (c : Conversion) (incoming : Operator) :
    (c.reduce incoming).log = c.log ++
      (Waiting.operators (c.waiting.takeWhile (Waiting.yieldsTo incoming))).map
        (.reduced · incoming) := by
  simp [reduce, log, emit, note]

/-- Let an operator wait for its right operand. -/
def shift (c : Conversion) (op : Operator) : Conversion :=
  { c.note [.shifted op] with waiting := .operator op :: c.waiting }

@[simp] theorem code_shift (c : Conversion) (op : Operator) : (c.shift op).code = c.code := rfl

@[simp] theorem log_shift (c : Conversion) (op : Operator) :
    (c.shift op).log = c.log ++ [.shifted op] := by
  simp [shift, log, note]

/-- Apply all operators that wait in the innermost group. -/
def drain (c : Conversion) : Conversion :=
  { c.emit ((Waiting.operators (c.waiting.takeWhile Waiting.isOperator)).map .operator) with
    waiting := c.waiting.dropWhile Waiting.isOperator }

@[simp] theorem code_drain (c : Conversion) :
    c.drain.code = c.code ++
      (Waiting.operators (c.waiting.takeWhile Waiting.isOperator)).map .operator := by
  simp [drain, code, emit]

@[simp] theorem log_drain (c : Conversion) : c.drain.log = c.log := rfl

/-- Begin a group, or the first argument of a function. -/
def enter (c : Conversion) (callee : Option Builtin) (start : Nat) : Conversion :=
  { c with waiting := .mark :: c.waiting, groups := ⟨callee, 1, start⟩ :: c.groups }

/-- End the innermost group. -/
def leave (c : Conversion) (start : Nat) : Except Fault Conversion :=
  match c.drain.waiting, c.groups with
  | .mark :: waiting, group :: groups =>
    match group.ending with
    | .ok code => .ok ({ c.drain with waiting, groups }.emit code)
    | .error cause => .error (cause.at start)
  | _, _ => .error (Cause.unexpectedCloseParen.at start)

/-- Begin a further argument of the innermost group, which has to be a call. -/
def beginArgument (c : Conversion) (start : Nat) : Except Fault Conversion :=
  match c.groups with
  | ⟨some callee, begun, openAt⟩ :: groups =>
    .ok { c.drain with groups := ⟨some callee, begun + 1, openAt⟩ :: groups }
  | _ => .error (Cause.unexpectedComma.at start)

/-- Apply what can be applied before an operator, and let it wait. A sign has a zero to its left. -/
def receive (c : Conversion) (op : Operator) (isSign : Bool) : Conversion :=
  ((if isSign then c.emit [.number 0] else c).reduce op).shift op

/-- Move the phase past a token at a given place. -/
def pass (c : Conversion) (terminal : Terminal) (start : Nat) : Except Fault Conversion :=
  match c.phase.next terminal with
  | .ok phase => .ok { c with phase }
  | .error cause => .error (cause.at start)

/-! ### Words -/

/-- The effect of a word. -/
def read (c : Conversion) (w : Word) : Except Fault Conversion :=
  match w.meaning with
  | .illegal found => .error ((Cause.illegalCharacter found).at w.start)
  | .operator op => (c.pass (.operator op) w.start).map (·.receive op c.phase.allowsSign)
  | .opening => (c.pass .opening w.start).map (·.enter none w.start)
  | .closing => (c.pass .closing w.start).bind (·.leave w.start)
  | .comma => (c.pass .comma w.start).bind (·.beginArgument w.start)
  | .number value => (c.pass .operand w.start).map (·.emit [.number value])
  | .variable name => (c.pass .operand w.start).map (·.emit [.variable name])
  | .call function openAt =>
    (c.pass .operand w.start).map fun c ↦
      { c with phase := .afterOpening }.enter (some function) openAt
  | .bare function =>
    (c.pass .operand w.start).bind fun _ ↦
      .error ((Cause.missingOpenParen function.name).at w.start)
  | .unreadable literal =>
    (c.pass .operand w.start).bind fun _ ↦ .error ((Cause.invalidNumber literal).at w.start)

/-- The effect of a list of words: how far it can be read, and the fault that stops it there. -/
def consume (c : Conversion) : List Word → Conversion × Option Fault
  | [] => (c, none)
  | w :: ws =>
    match c.read w with
    | .ok next => next.consume ws
    | .error fault => (c, some fault)

/-- The program of a statement that has been read to its end, if nothing is missing. -/
def program (c : Conversion) : Except Fault Program :=
  if c.phase = .afterOperator then .error Cause.trailingOperator.overall
  else match c.groups with
    | group :: _ => .error (Cause.unclosedParen.at group.start)
    | [] => .ok ⟨c.drain.code⟩

end Conversion

/-- The result of compiling a statement, with what happened on the way. -/
structure Compilation where
  result : Except Fault Program
  log : List Event

/-- Compile a statement. -/
def compile (statement : String) : Compilation :=
  let (c, fault?) := Conversion.initial.consume (words statement)
  let result := match fault? with
    | some fault => .error fault
    | none => c.program
  let verdict := match result with
    | .ok program => .compiled statement program.code.length
    | .error fault => .rejected statement fault.cause
  ⟨result, c.log ++ [verdict]⟩

/-- The program of a statement. -/
def parse (statement : String) : Except Rejection Program :=
  (compile statement).result.mapError fun fault ↦ { fault with statement }

end InfixCalc

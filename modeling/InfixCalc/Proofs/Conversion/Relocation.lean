import InfixCalc.Proofs.Conversion.Step
import InfixCalc.Proofs.Word.Spelling

/-!
# Places of a statement moved

A function `f` on places moves everything that remembers one: words, open parentheses and faults.
A conversion never compares two places and never computes with one, so each of its operations
commutes with `f`. Two statements whose words differ in their places only are therefore both
accepted, with the same program, or both rejected for the same cause, and `f` moves the place of
the one fault to that of the other.
-/

namespace InfixCalc

/-! ### Lexemes and words -/

/-- Move the ends of a lexeme, each in its own way. -/
def Lexeme.relocate (f g : Nat → Nat) (l : Lexeme) : Lexeme := ⟨l.token, f l.start, g l.stop⟩

namespace Word

variable (f g : Nat → Nat)

/-- Move the parenthesis of a call. -/
def Meaning.relocate : Meaning → Meaning
  | .call function openAt => .call function (f openAt)
  | meaning => meaning

/-- Move a word. -/
def relocate (w : Word) : Word := ⟨w.meaning.relocate f, f w.start⟩

@[simp] lemma relocate_ofSegment (text : String) :
    (Meaning.ofSegment text).relocate f = .ofSegment text := by
  unfold Meaning.ofSegment
  split_ifs
  · cases Number.read? text <;> rfl
  · rfl

lemma openingAt?_map_relocate (ls : List Lexeme) :
    openingAt? ((ls.map (Lexeme.relocate f g)).map .lexeme)
      = (openingAt? (ls.map .lexeme)).map f := by
  match ls with
  | [] => rfl
  | ⟨.operator _, _, _⟩ :: _ | ⟨.opening, _, _⟩ :: _ | ⟨.closing, _, _⟩ :: _
  | ⟨.comma, _, _⟩ :: _ | ⟨.segment _, _, _⟩ :: _ => rfl

/-- Moved lexemes have moved words. -/
theorem ofLexemes_map_relocate (ls : List Lexeme) :
    ofLexemes (ls.map (Lexeme.relocate f g)) = (ofLexemes ls).map (relocate f) := by
  match ls with
  | [] => rfl
  | ⟨.operator op, start, stop⟩ :: ls =>
    exact congrArg (⟨.operator op, f start⟩ :: ·) (ofLexemes_map_relocate ls)
  | ⟨.opening, start, stop⟩ :: ls =>
    exact congrArg (⟨.opening, f start⟩ :: ·) (ofLexemes_map_relocate ls)
  | ⟨.closing, start, stop⟩ :: ls =>
    exact congrArg (⟨.closing, f start⟩ :: ·) (ofLexemes_map_relocate ls)
  | ⟨.comma, start, stop⟩ :: ls =>
    exact congrArg (⟨.comma, f start⟩ :: ·) (ofLexemes_map_relocate ls)
  | ⟨.segment text, start, stop⟩ :: ls =>
    have ih := ofLexemes_map_relocate ls
    have hopening := openingAt?_map_relocate f g ls
    unfold ofLexemes at ih ⊢
    simp only [List.map_cons, Lexeme.relocate, ofItems, runsInto_map_lexeme, Bool.false_eq_true,
      if_false, hopening, ih]
    cases Builtin.ofName? text with
    | none => simp [relocate]
    | some function =>
      cases openingAt? (ls.map .lexeme) with
      | none => rfl
      | some openAt => simp [relocate, Meaning.relocate]

end Word

/-! ### Conversions -/

/-- Move the place of a fault, if it has one. -/
def Fault.relocate (f : Nat → Nat) (fault : Fault) : Fault :=
  { fault with index := fault.index.map f }

/-- Move an open parenthesis. -/
def Group.relocate (f : Nat → Nat) (g : Group) : Group := { g with start := f g.start }

@[simp] lemma Group.ending_relocate (f : Nat → Nat) (g : Group) :
    (g.relocate f).ending = g.ending := rfl

namespace Conversion

variable (f : Nat → Nat) (c : Conversion)

/-- Move the open parentheses of a conversion. -/
def relocate : Conversion := { c with groups := c.groups.map (Group.relocate f) }

/-- Move the result of an operation, or its fault. -/
def relocateResult (result : Except Fault Conversion) : Except Fault Conversion :=
  (result.map (relocate f)).mapError (Fault.relocate f)

lemma relocateResult_map {result : Except Fault Conversion} {g g' : Conversion → Conversion}
    (h : ∀ next, g' (next.relocate f) = (g next).relocate f) :
    (relocateResult f result).map g' = relocateResult f (result.map g) := by
  cases result with
  | error fault => rfl
  | ok next => exact congrArg Except.ok (h next)

lemma relocateResult_bind {result : Except Fault Conversion}
    {g g' : Conversion → Except Fault Conversion}
    (h : ∀ next, g' (next.relocate f) = relocateResult f (g next)) :
    (relocateResult f result).bind g' = relocateResult f (result.bind g) := by
  cases result with
  | error fault => rfl
  | ok next => exact h next

lemma pass_relocate (terminal : Terminal) (start : Nat) :
    (c.relocate f).pass terminal (f start) = relocateResult f (c.pass terminal start) := by
  unfold pass relocate
  cases c.phase.next terminal <;> rfl

lemma receive_relocate (op : Operator) (isSign : Bool) :
    (c.relocate f).receive op isSign = (c.receive op isSign).relocate f := by
  cases isSign <;> rfl

lemma leave_relocate (start : Nat) :
    (c.relocate f).leave (f start) = relocateResult f (c.leave start) := by
  have hdrain : (c.relocate f).drain.waiting = c.drain.waiting := rfl
  have hgroups : (c.relocate f).groups = c.groups.map (Group.relocate f) := rfl
  unfold leave
  rw [hdrain, hgroups]
  cases c.groups with
  | nil =>
    cases c.drain.waiting with
    | nil => rfl
    | cons w waiting => cases w <;> rfl
  | cons group groups =>
    cases c.drain.waiting with
    | nil => rfl
    | cons w waiting =>
      cases w with
      | operator op => rfl
      | mark =>
        simp only [List.map_cons, Group.ending_relocate]
        cases group.ending <;> rfl

lemma beginArgument_relocate (start : Nat) :
    (c.relocate f).beginArgument (f start) = relocateResult f (c.beginArgument start) := by
  have hgroups : (c.relocate f).groups = c.groups.map (Group.relocate f) := rfl
  unfold beginArgument
  rw [hgroups]
  cases c.groups with
  | nil => rfl
  | cons group groups =>
    obtain ⟨_ | callee, begun, openAt⟩ := group <;> rfl

/-- A word that is moved has the same effect on a conversion that is moved. -/
theorem read_relocate (w : Word) :
    (c.relocate f).read (w.relocate f) = relocateResult f (c.read w) := by
  obtain ⟨meaning, start⟩ := w
  cases meaning with
  | operator op =>
    change ((c.relocate f).pass (.operator op) (f start)).map _ = _
    rw [pass_relocate]
    exact relocateResult_map f fun next => receive_relocate f next op c.phase.allowsSign
  | opening =>
    change ((c.relocate f).pass .opening (f start)).map _ = _
    rw [pass_relocate]
    exact relocateResult_map f fun _ => rfl
  | closing =>
    change ((c.relocate f).pass .closing (f start)).bind _ = _
    rw [pass_relocate]
    exact relocateResult_bind f fun next => leave_relocate f next start
  | comma =>
    change ((c.relocate f).pass .comma (f start)).bind _ = _
    rw [pass_relocate]
    exact relocateResult_bind f fun next => beginArgument_relocate f next start
  | number _ | «variable» _ | call _ _ =>
    change ((c.relocate f).pass .operand (f start)).map _ = _
    rw [pass_relocate]
    exact relocateResult_map f fun _ => rfl
  | bare _ | unreadable _ =>
    change ((c.relocate f).pass .operand (f start)).bind _ = _
    rw [pass_relocate]
    exact relocateResult_bind f fun _ => rfl
  | illegal found => rfl

/-- Words that are moved are read up to the same one. -/
theorem consume_map_relocate (ws : List Word) :
    (c.relocate f).consume (ws.map (Word.relocate f))
      = ((c.consume ws).1.relocate f, (c.consume ws).2.map (Fault.relocate f)) := by
  induction ws generalizing c with
  | nil => rfl
  | cons w ws ih =>
    rw [List.map_cons, consume, consume, read_relocate]
    cases c.read w with
    | error fault => rfl
    | ok next => exact ih next

lemma program_relocate : (c.relocate f).program = c.program.mapError (Fault.relocate f) := by
  unfold program relocate
  split_ifs
  · rfl
  · cases c.groups <;> rfl

end Conversion

/-! ### Statements -/

/-- A statement with the words of another one, but at other places, has the same outcome, up to the
place of the fault. -/
theorem parse_of_words_relocate {s s' : String} {f : Nat → Nat}
    (h : words s' = (words s).map (Word.relocate f)) :
    (∀ p, parse s = .ok p → parse s' = .ok p) ∧
      ∀ r, parse s = .error r → parse s' = .error ⟨r.toFault.relocate f, s'⟩ := by
  have hinitial : Conversion.initial.relocate f = .initial := rfl
  have hresult : (compile s').result = (compile s).result.mapError (Fault.relocate f) := by
    unfold compile
    rw [h, ← hinitial, Conversion.consume_map_relocate, hinitial]
    rcases Conversion.initial.consume (words s) with ⟨c, _ | fault⟩
    · exact c.program_relocate f
    · rfl
  unfold parse
  rw [hresult]
  cases (compile s).result with
  | error fault =>
    constructor
    · rintro p ⟨⟩
    · rintro r ⟨⟩
      rfl
  | ok p =>
    constructor
    · rintro p' ⟨⟩
      rfl
    · rintro r ⟨⟩

end InfixCalc

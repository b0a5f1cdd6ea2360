import InfixCalc.Proofs.Grammar.Equality
import InfixCalc.Proofs.Grammar.Names
import InfixCalc.Proofs.Lexeme.Segments

/-!
# Reading postfix text

The postfix text of a program is read word by word: an operator is a single character, a call has a
slash in it, a number starts with a digit, and all other words are variables. Programs of statements
can be read back in this way, unless they have an infinite number, because their variables consist
of segment characters and do not start with digits.
-/

namespace InfixCalc

open Lexeme (isSegmentChar)

/-! ### Reading -/

/-- The operator that is written as a word. -/
def Operator.ofWord? : List Char → Option Operator
  | [c] => ofSymbol? c
  | _ => none

/-- The call that is written as a word: a name, a slash and a number of arguments. -/
def Instruction.callOfWord? (word : List Char) : Option Instruction :=
  let name := word.takeWhile (· ≠ '/')
  let count := (word.dropWhile (· ≠ '/')).tail
  if count ≠ [] ∧ count.all Char.isDigit then
    (Builtin.ofName? (String.ofList name)).map fun f => .call f (Number.Decimal.ofDigits count)
  else none

/-- The instruction that is written as a word. -/
def Instruction.ofWord? (word : List Char) : Option Instruction :=
  match Operator.ofWord? word with
  | some op => some (.operator op)
  | none =>
    if '/' ∈ word then callOfWord? word
    else if Word.startsWithDigit (String.ofList word) then
      (Number.read? (String.ofList word)).map .number
    else some (.variable (String.ofList word))

/-- The program that a text spells, with spaces between its words. -/
def Program.ofText? (text : String) : Option Program :=
  ((stretches (· ≠ ' ') text.toList).mapM Instruction.ofWord?).map .mk

/-! ### Words of instructions -/

variable {c : Char} {cs : List Char} {segment : String} {x : Float} {i : Instruction}

lemma Lexeme.isSegmentChar_of_isDigit (h : c.isDigit) : isSegmentChar c := by
  simp [isSegmentChar, Char.isAlphanum, h]

lemma Lexeme.ne_of_isSegmentChar {d : Char} (hc : isSegmentChar c) (hd : isSegmentChar d = false) :
    c ≠ d := by
  rintro rfl
  rw [hc] at hd
  cases hd

lemma Builtin.isSegmentChar_of_mem_name (f : Builtin) : ∀ c ∈ f.name.toList, isSegmentChar c := by
  cases f <;> simp [name, isSegmentChar, Char.isAlphanum]

lemma Builtin.toList_name_ne_nil (f : Builtin) : f.name.toList ≠ [] := by
  cases f <;> decide

/-- No operator begins like a segment. -/
lemma Operator.ofWord?_eq_none (hc : isSegmentChar c) : ofWord? (c :: cs) = none := by
  cases cs with
  | cons d cs => rfl
  | nil =>
    rw [ofWord?, Option.eq_none_iff_forall_ne_some]
    intro op hop
    obtain rfl := ofSymbol?_eq_some_iff.mp hop
    cases op <;> cases hc

namespace Instruction

lemma toList_text_operator (op : Operator) : (text (.operator op)).toList = [op.symbol] :=
  String.toList_singleton op.symbol

lemma ofWord?_operator (op : Operator) :
    ofWord? (text (.operator op)).toList = some (.operator op) := by
  rw [toList_text_operator, ofWord?, Operator.ofWord?, Operator.ofSymbol?_symbol]

lemma toList_text_call (f : Builtin) (n : Nat) :
    (text (.call f n)).toList = f.name.toList ++ '/' :: Number.Decimal.digitsOf n := by
  rw [text, String.toList_append, String.toList_append, List.append_assoc,
    Nat.toString_eq_ofList_toDigits]
  exact congrArg (f.name.toList ++ '/' :: ·) String.toList_ofList

lemma ofWord?_call (f : Builtin) (n : Nat) :
    ofWord? (text (.call f n)).toList = some (.call f n) := by
  have hname : ∀ c ∈ f.name.toList, decide (c ≠ '/') := fun c hc =>
    decide_eq_true (Lexeme.ne_of_isSegmentChar (f.isSegmentChar_of_mem_name c hc) (by decide))
  have htake : (text (.call f n)).toList.takeWhile (· ≠ '/') = f.name.toList := by
    rw [toList_text_call, List.takeWhile_append_of_pos hname]
    exact List.append_nil _
  have hdrop : (text (.call f n)).toList.dropWhile (· ≠ '/')
      = '/' :: Number.Decimal.digitsOf n := by
    rw [toList_text_call, List.dropWhile_append_of_pos hname]
    rfl
  have hslash : '/' ∈ (text (.call f n)).toList := by
    simp [toList_text_call]
  have hoperator : Operator.ofWord? (text (.call f n)).toList = none := by
    obtain ⟨c, cs, hcs⟩ := List.exists_cons_of_ne_nil f.toList_name_ne_nil
    have hc : isSegmentChar c := f.isSegmentChar_of_mem_name c (hcs ▸ List.mem_cons_self)
    rw [toList_text_call, hcs]
    exact Operator.ofWord?_eq_none hc
  have hcount : Number.Decimal.digitsOf n ≠ [] ∧ (Number.Decimal.digitsOf n).all Char.isDigit :=
    ⟨Nat.toDigits_ne_nil,
      List.all_eq_true.mpr fun c hc => Number.Decimal.isDigit_of_mem_digitsOf hc⟩
  have hcall : callOfWord? (text (.call f n)).toList = some (.call f n) := by
    rw [callOfWord?, htake, hdrop, List.tail_cons, if_pos hcount, String.ofList_toList,
      Builtin.ofName?_name, Number.Decimal.ofDigits_digitsOf]
    rfl
  rw [ofWord?, hoperator]
  exact (if_pos hslash).trans hcall

/-- A word like a segment is a number or a variable. -/
lemma ofWord?_segment (hne : segment.toList ≠ []) (h : ∀ c ∈ segment.toList, isSegmentChar c) :
    ofWord? segment.toList =
      if Word.startsWithDigit segment then (Number.read? segment).map .number
      else some (.variable segment) := by
  have hslash : '/' ∉ segment.toList := fun hmem => absurd (h _ hmem) (by decide)
  obtain ⟨c, cs, hcs⟩ := List.exists_cons_of_ne_nil hne
  have hoperator : Operator.ofWord? segment.toList = none := by
    rw [hcs] at h ⊢
    exact Operator.ofWord?_eq_none (h c List.mem_cons_self)
  rw [ofWord?, hoperator, String.ofList_toList]
  exact if_neg hslash

/-- Whether the text of an instruction is a word that the instruction is read back from. -/
structure Legible (i : Instruction) : Prop where
  nonempty : i.text.toList ≠ []
  noSpace : ∀ c ∈ i.text.toList, c ≠ ' '
  read : ofWord? i.text.toList = some i

namespace Legible

lemma of_segment (hne : i.text.toList ≠ []) (h : ∀ c ∈ i.text.toList, isSegmentChar c)
    (hread : (if Word.startsWithDigit i.text then (Number.read? i.text).map .number
      else some (.variable i.text)) = some i) : i.Legible where
  nonempty := hne
  noSpace c hc := Lexeme.ne_of_isSegmentChar (h c hc) (by decide)
  read := (ofWord?_segment hne h).trans hread

lemma «number» (hfinite : x.isFinite) (hsign : Number.isNegative x = false) :
    Legible (.number x) := by
  obtain ⟨d, hpositional, -⟩ := Number.exists_positional_render hfinite hsign
  obtain ⟨c, cs, hcs, hc⟩ := hpositional.exists_cons
  refine of_segment ?_ ?_ ?_
  · rw [text, hcs]
    exact List.cons_ne_nil c cs
  · intro c hc
    rcases hpositional.isDigit_or_eq hc with hdigit | rfl
    · exact Lexeme.isSegmentChar_of_isDigit hdigit
    · decide
  · rw [text, if_pos (Word.startsWithDigit_iff.mpr ⟨c, cs, hcs, hc⟩),
      Number.read?_render hfinite hsign, Option.map_some]

lemma «variable» (hne : segment.toList ≠ []) (h : ∀ c ∈ segment.toList, isSegmentChar c)
    (hdigit : Word.startsWithDigit segment = false) : Legible (.variable segment) := by
  refine of_segment hne h ?_
  rw [text, hdigit]
  rfl

lemma operator (op : Operator) : Legible (.operator op) where
  nonempty := by simp [toList_text_operator]
  noSpace := by
    rw [toList_text_operator, List.forall_mem_singleton]
    cases op <;> decide
  read := ofWord?_operator op

lemma call (f : Builtin) (n : Nat) : Legible (.call f n) where
  nonempty := by simp [toList_text_call]
  noSpace := by
    rw [toList_text_call, List.forall_mem_append, List.forall_mem_cons]
    refine ⟨fun c hc => ?_, by decide, fun c hc => ?_⟩
    · exact Lexeme.ne_of_isSegmentChar (f.isSegmentChar_of_mem_name c hc) (by decide)
    · have hdigit := Number.Decimal.isDigit_of_mem_digitsOf hc
      exact Lexeme.ne_of_isSegmentChar (Lexeme.isSegmentChar_of_isDigit hdigit) (by decide)
  read := ofWord?_call f n

end Legible

end Instruction

/-! ### Programs of statements -/

variable {statement : String} {p : Program}

/-- A variable of a program is a segment of its statement. -/
lemma mem_segments_of_parse (h : parse statement = .ok p) {name : String}
    (hname : .variable name ∈ p.code) :
    name ∈ segments statement ∧ Word.startsWithDigit name = false := by
  obtain ⟨-, s, htokens, rfl⟩ := exists_program_of_parse h
  cases s with
  | blank => cases hname
  | phrase phrase =>
    rw [Sentence.program, ← Tree.mem_names_iff, phrase.names_tree, List.mem_filterMap] at hname
    obtain ⟨t, ht, hsome⟩ := hname
    obtain ⟨rfl, hdigit, -⟩ := Token.name?_eq_some_iff.mp hsome
    refine ⟨?_, hdigit⟩
    rw [← filterMap_segment?_tokens, htokens]
    exact List.mem_filterMap.mpr ⟨_, ht, rfl⟩

lemma legible_of_parse (h : parse statement = .ok p)
    (hfinite : ∀ x, .number x ∈ p.code → x.isFinite) : ∀ i ∈ p.code, i.Legible := by
  intro i hi
  cases i with
  | number x => exact .number (hfinite x hi) (spelled_of_parse h _ hi).unsigned.2
  | «variable» name =>
    obtain ⟨hsegment, hdigit⟩ := mem_segments_of_parse h hi
    obtain ⟨hne, hchars⟩ := of_mem_segments hsegment
    exact .variable hne hchars hdigit
  | operator op => exact .operator op
  | call f n => exact .call f n

/-- The text of legible instructions is read word by word. -/
lemma Program.ofText?_text (h : ∀ i ∈ p.code, i.Legible) : ofText? p.text = some p := by
  have hwords : stretches (· ≠ ' ') p.text.toList = p.code.map fun i => i.text.toList := by
    have htext : p.text.toList = [' '].intercalate (p.code.map fun i => i.text.toList) := by
      rw [text, String.toList_intercalate, List.map_map]
      rfl
    rw [htext]
    refine stretches_intercalate (by decide) (List.forall_mem_map.mpr fun i hi => ?_)
    exact ⟨(h i hi).nonempty, fun c hc => decide_eq_true ((h i hi).noSpace c hc)⟩
  have hread : (p.code.map fun i => i.text.toList).mapM Instruction.ofWord? = some p.code := by
    generalize p.code = code at h
    induction code with
    | nil => rfl
    | cons i code ih =>
      obtain ⟨hi, hcode⟩ := List.forall_mem_cons.mp h
      rw [List.map_cons, List.mapM_cons, hi.read, ih hcode]
      rfl
  rw [ofText?, hwords, hread]
  rfl

/-- The program of a statement without infinite numbers is read back from its postfix text, so that
two such programs are equal if they have the same text. -/
theorem read_text_of_parse (h : parse statement = .ok p)
    (hfinite : ∀ x, .number x ∈ p.code → x.isFinite) :
    Program.ofText? p.text = some p ∧
      ∀ statement' q, parse statement' = .ok q → (∀ x, .number x ∈ q.code → x.isFinite) →
        (p.text = q.text ↔ p == q) := by
  have hread := Program.ofText?_text (legible_of_parse h hfinite)
  refine ⟨hread, fun statement' q h' hfinite' => ?_⟩
  have hread' := Program.ofText?_text (legible_of_parse h' hfinite')
  have hbeq : p == q ↔ p = q := Program.Compiled.beq_iff (.inr ⟨_, h⟩) (.inr ⟨_, h'⟩)
  rw [hbeq]
  constructor
  · intro htext
    rw [htext, hread'] at hread
    exact (Option.some.inj hread).symm
  · exact congrArg Program.text

/-- The parse tree of `-x / max(0.1, y_2)`. -/
def Sentence.minusRatio : Sentence :=
  let x : Operand := .variable "x" (.refl false) Builtin.ofName?_x
  let y : Operand := .variable "y_2" (by decide) (by decide)
  let tenth : Operand := .number "0.1" 0.1 (by decide) (by decide +kernel)
  let arguments : Arguments 2 := .snoc (.one (.plain (.operand tenth))) (.plain (.operand y))
  .phrase (.signed .sub (.refl true)
    (.join (.operand x) .div (.call .max 2 arguments (.refl true))))

/-- The slash in `max/2` is read as part of the call, and the one by itself as an operator. -/
theorem read_text_minusRatio :
    parse "-x / max(0.1, y_2)" = .ok Sentence.minusRatio.program ∧
      (∀ x, .number x ∈ Sentence.minusRatio.program.code → x.isFinite) ∧
      Sentence.minusRatio.program.text = "0 x 0.1 y_2 max/2 / -" ∧
      Program.ofText? "0 x 0.1 y_2 max/2 / -" = some Sentence.minusRatio.program := by
  have hparse : parse "-x / max(0.1, y_2)" = .ok Sentence.minusRatio.program :=
    parse_of_tokens (by decide +kernel) _ (by decide +kernel)
  have hfinite : ∀ x, .number x ∈ Sentence.minusRatio.program.code → x.isFinite := by
    have hcode : Sentence.minusRatio.program.code = [.number 0, .variable "x", .number 0.1,
        .variable "y_2", .call .max 2, .operator .div, .operator .sub] := rfl
    rw [hcode]
    intro x hx
    simp at hx
    rcases hx with rfl | rfl <;> decide +kernel
  have htext : Sentence.minusRatio.program.text = "0 x 0.1 y_2 max/2 / -" := by
    decide +kernel
  have hread := (read_text_of_parse hparse hfinite).1
  rw [htext] at hread
  exact ⟨hparse, hfinite, htext, hread⟩

end InfixCalc

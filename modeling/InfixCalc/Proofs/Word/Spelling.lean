import InfixCalc.Word
import Mathlib.Tactic.Common

/-!
# Words and lexemes

Lexemes that are read as a word are followed by words of their own, whatever these are. In turn,
`Written w ls` says that the lexemes `ls` are read as the word `w`, and `Heads is w rest` that `w`
is the first word of some items and `rest` is what is left of them after it. So what is known of a
word can be told of the text that it was read from, its place included.
-/

namespace InfixCalc

/-- The words of a list of lexemes. -/
def Word.ofLexemes (ls : List Lexeme) : List Word := Word.ofItems (ls.map .lexeme)

lemma Word.runsInto_map_lexeme (stop : Nat) (ls : List Lexeme) :
    Word.runsInto stop (ls.map .lexeme) = false := by
  cases ls <;> rfl

/-- A segment that is no name of a function is a word whatever follows. -/
lemma Word.ofLexemes_segment {text : String} (h : Builtin.ofName? text = none) (start stop : Nat)
    (rest : List Lexeme) :
    ofLexemes (⟨.segment text, start, stop⟩ :: rest)
      = ⟨.ofSegment text, start⟩ :: ofLexemes rest := by
  simp [ofLexemes, ofItems, runsInto_map_lexeme, h]

/-- The name of a function takes the parenthesis after it along. -/
lemma Word.ofLexemes_call (f : Builtin) (start stop openAt openStop : Nat) (rest : List Lexeme) :
    ofLexemes (⟨.segment f.name, start, stop⟩ :: ⟨.opening, openAt, openStop⟩ :: rest)
      = ⟨.call f openAt, start⟩ :: ofLexemes rest := by
  simp [ofLexemes, ofItems, runsInto, openingAt?]

lemma Word.startsWithDigit_iff {text : String} :
    startsWithDigit text ↔ ∃ c cs, text.toList = c :: cs ∧ c.isDigit := by
  rw [startsWithDigit]
  cases text.toList with
  | nil => simp
  | cons c cs => simp

/-- No function has a name that could be a number. -/
lemma Builtin.ofName?_of_startsWithDigit {text : String} (h : Word.startsWithDigit text) :
    Builtin.ofName? text = none := by
  cases hf : Builtin.ofName? text with
  | none => rfl
  | some f =>
    obtain rfl := Builtin.ofName?_eq_some_iff.mp hf
    cases f <;> exact absurd h (by decide)

lemma Builtin.ofName?_x : Builtin.ofName? "x" = none := by decide

lemma Builtin.ofName?_y : Builtin.ofName? "y" = none := by decide

namespace Word

/-- The lexemes of a word that can be read. -/
inductive Written : Word → List Lexeme → Prop where
  | operator (op : Operator) (start stop : Nat) :
      Written ⟨.operator op, start⟩ [⟨.operator op, start, stop⟩]
  | opening (start stop : Nat) : Written ⟨.opening, start⟩ [⟨.opening, start, stop⟩]
  | closing (start stop : Nat) : Written ⟨.closing, start⟩ [⟨.closing, start, stop⟩]
  | comma (start stop : Nat) : Written ⟨.comma, start⟩ [⟨.comma, start, stop⟩]
  | number {text : String} {value : Float} (start stop : Nat) (digit : startsWithDigit text)
      (read : Number.read? text = some value) :
      Written ⟨.number value, start⟩ [⟨.segment text, start, stop⟩]
  | variable {name : String} (start stop : Nat) (noDigit : startsWithDigit name = false)
      (noFunction : Builtin.ofName? name = none) :
      Written ⟨.variable name, start⟩ [⟨.segment name, start, stop⟩]
  | call (f : Builtin) (start stop openAt openStop : Nat) :
      Written ⟨.call f openAt, start⟩
        [⟨.segment f.name, start, stop⟩, ⟨.opening, openAt, openStop⟩]

/-- Items that begin with those of a word, and the items after it. -/
inductive Heads : List Item → Word → List Item → Prop where
  | written {w : Word} {ls : List Lexeme} (h : Written w ls) (rest : List Item) :
      Heads (ls.map .lexeme ++ rest) w rest
  | unreadable {text : String} (start stop : Nat) (rest : List Item)
      (digit : startsWithDigit text) (unread : Number.read? text = none) :
      Heads (.lexeme ⟨.segment text, start, stop⟩ :: rest) ⟨.unreadable text, start⟩ rest
  | bare (f : Builtin) (start stop : Nat) {rest : List Item} (hrest : openingAt? rest = none) :
      Heads (.lexeme ⟨.segment f.name, start, stop⟩ :: rest) ⟨.bare f, start⟩ rest
  | illegal (found : Char) (index : Nat) (rest : List Item) :
      Heads (.illegal found index :: rest) ⟨.illegal found, index⟩ rest
  /-- A segment is lost if it runs into an illegal character. -/
  | lost (segment : Lexeme) (found : Char) (index : Nat) (rest : List Item) :
      Heads (.lexeme segment :: .illegal found index :: rest) ⟨.illegal found, index⟩ rest

lemma exists_of_runsInto {stop : Nat} {rest : List Item} (h : runsInto stop rest) :
    ∃ found index rest', rest = .illegal found index :: rest' := by
  unfold runsInto at h
  split at h
  case h_1 found index rest => exact ⟨found, index, rest, rfl⟩
  case h_2 => cases h

lemma openingAt?_eq_some_iff {rest : List Item} {openAt : Nat} :
    openingAt? rest = some openAt ↔
      ∃ stop rest', rest = .lexeme ⟨.opening, openAt, stop⟩ :: rest' := by
  unfold openingAt?
  split
  case h_1 start stop rest => simp
  case h_2 hnone =>
    constructor
    · intro h
      cases h
    · rintro ⟨stop, rest', rfl⟩
      exact absurd rfl (hnone openAt stop rest')

lemma heads_ofSegment {text : String} (hname : Builtin.ofName? text = none) (start stop : Nat)
    (rest : List Item) :
    Heads (.lexeme ⟨.segment text, start, stop⟩ :: rest) ⟨.ofSegment text, start⟩ rest := by
  by_cases hdigit : startsWithDigit text
  · rw [Meaning.ofSegment, if_pos hdigit]
    cases hvalue : Number.read? text with
    | none => exact .unreadable start stop rest hdigit hvalue
    | some value => exact .written (.number start stop hdigit hvalue) rest
  · rw [Meaning.ofSegment, if_neg hdigit]
    exact .written (.variable start stop (by simpa using hdigit) hname) rest

/-- What is not empty begins with the items of a word. -/
theorem heads_ofItems (is : List Item) :
    is = [] ∨ ∃ w rest, Heads is w rest ∧ ofItems is = w :: ofItems rest := by
  match is with
  | [] => exact .inl rfl
  | .illegal found index :: rest => exact .inr ⟨_, rest, .illegal found index rest, rfl⟩
  | .lexeme ⟨.operator op, start, stop⟩ :: rest =>
    exact .inr ⟨_, rest, .written (.operator op start stop) rest, rfl⟩
  | .lexeme ⟨.opening, start, stop⟩ :: rest =>
    exact .inr ⟨_, rest, .written (.opening start stop) rest, rfl⟩
  | .lexeme ⟨.closing, start, stop⟩ :: rest =>
    exact .inr ⟨_, rest, .written (.closing start stop) rest, rfl⟩
  | .lexeme ⟨.comma, start, stop⟩ :: rest =>
    exact .inr ⟨_, rest, .written (.comma start stop) rest, rfl⟩
  | .lexeme ⟨.segment text, start, stop⟩ :: rest =>
    right
    rw [ofItems]
    by_cases hruns : runsInto stop rest
    · obtain ⟨found, index, rest, rfl⟩ := exists_of_runsInto hruns
      rw [if_pos hruns]
      exact ⟨_, rest, .lost _ found index rest, rfl⟩
    · rw [if_neg hruns]
      cases hname : Builtin.ofName? text with
      | none => exact ⟨_, rest, heads_ofSegment hname start stop rest, rfl⟩
      | some f =>
        obtain rfl := Builtin.ofName?_eq_some_iff.mp hname
        cases hopening : openingAt? rest with
        | none => exact ⟨_, rest, .bare f start stop hopening, rfl⟩
        | some openAt =>
          obtain ⟨openStop, rest, rfl⟩ := openingAt?_eq_some_iff.mp hopening
          -- The parenthesis is part of the call, so the rest begins behind it.
          exact ⟨_, rest, .written (.call f start stop openAt openStop) rest, rfl⟩

end Word

end InfixCalc

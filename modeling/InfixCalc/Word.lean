import InfixCalc.Builtin
import InfixCalc.Lexeme
import InfixCalc.Number.Text

/-!
# Words

A word is a lexeme together with what it means: a segment is a number, the call of a function or a
variable. To tell, one has to look at the item that follows it. A name of a function takes the
parenthesis after it along, and a segment that runs into an illegal character is not read at all.
-/

namespace InfixCalc

/-- What a word means. -/
inductive Word.Meaning where
  | operator (op : Operator)
  | opening
  | closing
  | comma
  | number (value : Float)
  | variable (name : String)
  /-- The name of a function and the parenthesis after it. -/
  | call (function : Builtin) (openAt : Nat)
  /-- The name of a function with no parenthesis after it. -/
  | bare (function : Builtin)
  /-- A segment that starts with a digit and is no number. -/
  | unreadable (literal : String)
  | illegal (found : Char)
  deriving DecidableEq

/-- A meaning and the place where its text starts. -/
structure Word where
  meaning : Word.Meaning
  start : Nat
  deriving DecidableEq

namespace Word

/-- Whether a segment starts with a digit, as only numbers do. -/
def startsWithDigit (text : String) : Bool := text.toList.head?.any Char.isDigit

/-- What a segment means that is no name of a function. -/
def Meaning.ofSegment (text : String) : Meaning :=
  if startsWithDigit text then
    match Number.read? text with
    | some value => .number value
    | none => .unreadable text
  else .variable text

/-- Whether the items after a segment start with an illegal character right at its end. -/
def runsInto (stop : Nat) : List Item → Bool
  | .illegal _ index :: _ => index == stop
  | _ => false

/-- The place of the parenthesis that a list of items starts with. -/
def openingAt? : List Item → Option Nat
  | .lexeme ⟨.opening, start, _⟩ :: _ => some start
  | _ => none

/-- The words of a list of items. The parenthesis after the name of a function is part of the call,
so it is no word of its own. -/
def ofItems : List Item → List Word
  | [] => []
  | .illegal found index :: rest => ⟨.illegal found, index⟩ :: ofItems rest
  | .lexeme ⟨.operator op, start, _⟩ :: rest => ⟨.operator op, start⟩ :: ofItems rest
  | .lexeme ⟨.opening, start, _⟩ :: rest => ⟨.opening, start⟩ :: ofItems rest
  | .lexeme ⟨.closing, start, _⟩ :: rest => ⟨.closing, start⟩ :: ofItems rest
  | .lexeme ⟨.comma, start, _⟩ :: rest => ⟨.comma, start⟩ :: ofItems rest
  | .lexeme ⟨.segment text, start, stop⟩ :: rest =>
    if runsInto stop rest then ofItems rest
    else match Builtin.ofName? text, openingAt? rest with
      | some function, some openAt => ⟨.call function openAt, start⟩ :: (ofItems rest).tail
      | some function, none => ⟨.bare function, start⟩ :: ofItems rest
      | none, _ => ⟨.ofSegment text, start⟩ :: ofItems rest

end Word

/-- The words of a statement. -/
def words (statement : String) : List Word := Word.ofItems (items statement)

end InfixCalc

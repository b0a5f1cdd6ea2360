import InfixCalc.Operator

/-!
# Lexemes

A statement is cut into operators, parentheses, commas and segments, the longest runs of letters,
digits, points and underscores. Spaces and tabs separate segments and mean nothing else. Every
other character is an item of its own, so that no character gets lost and reading can go on after
it.

Places are byte offsets into the statement in UTF-8.
-/

namespace InfixCalc

/-- What a piece of a statement says. -/
inductive Token where
  | operator (op : Operator)
  | opening
  | closing
  | comma
  | segment (text : String)
  deriving DecidableEq, Repr

/-- The token that a character is by itself. -/
def Token.ofChar? : Char → Option Token
  | '(' => some .opening
  | ')' => some .closing
  | ',' => some .comma
  | c => (Operator.ofSymbol? c).map .operator

/-- How a token is written. -/
def Token.text : Token → String
  | .operator op => op.text
  | .opening => "("
  | .closing => ")"
  | .comma => ","
  | .segment text => text

/-- A token and the bytes that it takes up. -/
structure Lexeme where
  token : Token
  start : Nat
  stop : Nat
  deriving DecidableEq, Repr

/-- What a statement consists of, blanks aside. -/
inductive Item where
  | lexeme (lexeme : Lexeme)
  | illegal (found : Char) (index : Nat)
  deriving DecidableEq, Repr

namespace Lexeme

/-- Whether a character separates segments and means nothing else. -/
def isBlank (c : Char) : Bool := c == ' ' || c == '\t'

/-- Whether a character can stand in a segment. -/
def isSegmentChar (c : Char) : Bool := c.isAlphanum || c == '.' || c == '_'

/-- Cut the part of a statement that starts at a byte offset into items. -/
def scan (start : Nat) : List Char → List Item
  | [] => []
  | c :: cs =>
    if isBlank c then scan (start + 1) cs
    else if isSegmentChar c then
      let text := c :: cs.takeWhile isSegmentChar
      .lexeme ⟨.segment (String.ofList text), start, start + text.length⟩
        :: scan (start + text.length) (cs.dropWhile isSegmentChar)
    else match Token.ofChar? c with
      | some token => .lexeme ⟨token, start, start + 1⟩ :: scan (start + 1) cs
      | none => .illegal c start :: scan (start + c.utf8Size) cs
termination_by cs => cs.length
decreasing_by
  · simp
  · have := (List.dropWhile_suffix isSegmentChar (l := cs)).length_le
    simp only [List.length_cons]
    omega
  · simp
  · simp

end Lexeme

/-- The items of a statement. -/
def items (statement : String) : List Item := Lexeme.scan 0 statement.toList

end InfixCalc

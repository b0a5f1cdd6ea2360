import InfixCalc.Text.Hidden

/-!
# Quoted text

Characters and statements are quoted in messages, so that a reader can tell blanks and invisible
characters apart: a hidden character is shown by its code, and a backslash or a quotation mark like
the enclosing ones by a backslash before it.
-/

namespace InfixCalc.Text

/-- The code of a character in hexadecimal digits, in braces. -/
def codeEscape (c : Char) : List Char :=
  ['\x5c', 'u', '\x7b'] ++ Nat.toDigits 16 c.toNat ++ ['\x7d']

/-- The form of a character between the given quotation marks. -/
def escape (mark c : Char) : List Char :=
  if c = '\x00' then ['\x5c', '0']
  else if c = '\t' then ['\x5c', 't']
  else if c = '\r' then ['\x5c', 'r']
  else if c = '\n' then ['\x5c', 'n']
  else if c = '\x5c' ∨ c = mark then ['\x5c', c]
  else if isHidden c then codeEscape c
  else [c]

/-- A character in single quotation marks. -/
def quoteChar (c : Char) : String :=
  String.ofList ('\x27' :: escape '\x27' c ++ ['\x27'])

/-- A text in double quotation marks. -/
def quote (s : String) : String :=
  String.ofList ('\x22' :: s.toList.flatMap (escape '\x22') ++ ['\x22'])

end InfixCalc.Text

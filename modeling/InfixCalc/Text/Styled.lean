/-!
# Styled text

A terminal takes some characters of a text as commands: the control characters, and the sequences
that an escape character begins. `styled` puts commands around a text that change how it looks, and
`plain` takes all commands out of a text, for readers that are no terminal.

White space stays, and it can stand inside of a sequence. Text is read on from there, up to the
next control character, where the sequence goes on.
-/

namespace InfixCalc.Text

/-! ### Styles -/

/-- What a part of a text is, and looks like. -/
inductive Style where
  /-- The word that announces an error. -/
  | alarm
  /-- The word that announces a section. -/
  | heading
  /-- Something to be typed as it stands. -/
  | literal
  /-- Something that was typed and is wrong. -/
  | wrong
  /-- Something that should have been typed. -/
  | missing
  deriving DecidableEq, Repr

/-- The numbers of the commands that select a style. -/
def Style.codes : Style → List Nat
  | .alarm => [1, 31]
  | .heading => [1, 4]
  | .literal => [1]
  | .wrong => [33]
  | .missing => [32]

/-- The command with a given number. -/
def styleCommand (code : Nat) : String := "\x1b[" ++ toString code ++ "m"

/-- A text in a style. -/
def styled (style : Style) (text : String) : String :=
  String.join (style.codes.map styleCommand) ++ text ++ styleCommand 0

/-! ### Sequences -/

/-- How far a sequence of characters that form a command has been read. -/
inductive Sequence where
  /-- No sequence has begun. -/
  | none
  /-- The escape character has been read. -/
  | escape
  /-- A command of few characters, of which only the last one is missing. -/
  | short
  /-- A command with parameters. -/
  | parameters
  /-- A text for the system around the terminal. -/
  | system
  /-- A text for a device, before its parameters. -/
  | device
  /-- A text for a device, in its parameters. -/
  | deviceParameters
  /-- A text for a device, after its parameters. -/
  | deviceIntermediate
  /-- A text that the terminal does not read. -/
  | payload
  deriving DecidableEq, Repr

/-- Whether a character stands between the parameters and the end of a command. -/
def isIntermediate (c : Char) : Bool := ' ' ≤ c && c ≤ '/'

/-- Whether a character can end a command with parameters. -/
def isFinal (c : Char) : Bool := '@' ≤ c && c ≤ '~'

/-- Whether the byte that ends a text for a device is among the bytes of a character in UTF-8. -/
def holdsTerminator (c : Char) : Bool := (String.singleton c).toUTF8.toList.contains 0x9C

/-- How far a sequence has been read after a further character. -/
def Sequence.next : Sequence → Char → Sequence
  | .none, _ => .none
  | .escape, c =>
    if isIntermediate c then .short
    else if c = '[' then .parameters
    else if c = ']' then .system
    else if c = 'P' then .device
    else if c = 'X' ∨ c = '^' ∨ c = '_' then .payload
    else if '0' ≤ c ∧ c ≤ '~' then .none
    else .escape
  | .short, c => if '0' ≤ c ∧ c ≤ '~' then .none else .short
  | .parameters, c => if isFinal c then .none else .parameters
  | .system, c => if c = '\x07' then .none else .system
  | .device, c =>
    if isIntermediate c then .deviceIntermediate
    else if '0' ≤ c ∧ c ≤ '?' then .deviceParameters
    else if isFinal c then .payload
    else .device
  | .deviceParameters, c =>
    if isIntermediate c then .deviceIntermediate
    else if '<' ≤ c ∧ c ≤ '~' then .payload
    else .deviceParameters
  | .deviceIntermediate, c => if '0' ≤ c ∧ c ≤ '~' then .payload else .deviceIntermediate
  | .payload, c => if holdsTerminator c then .none else .payload

/-- Whether white space inside of a sequence is shown. -/
def Sequence.showsSpace : Sequence → Bool
  | .none | .escape | .short | .parameters => true
  | _ => false

/-! ### Plain text -/

/-- Whether a character is white space that moves the place of writing. -/
def isSpacing (c : Char) : Bool := c = '\t' || c = '\n' || c = '\x0c' || c = '\r'

/-- Whether a character is text and no command. -/
def isText (c : Char) : Bool := isSpacing c || ' ' ≤ c && c ≠ '\x7f'

/-- The characters of a text that are no part of commands, given how far a sequence has been read
and whether text is shown though it has not ended. -/
def plainFrom (s : Sequence) (shown : Bool) : List Char → List Char
  | [] => []
  | c :: cs =>
    if c = '\x1b' then plainFrom .escape false cs
    else if c = '\x18' ∨ c = '\x1a' then plainFrom .none false cs
    else if shown ∨ s = .none then
      if isText c then c :: plainFrom (if c ≤ '\x7f' then s else .none) true cs
      else plainFrom s false cs
    else if s.showsSpace ∧ isSpacing c then c :: plainFrom s true cs
    else plainFrom (s.next c) false cs

/-- A text without commands. -/
def plain (s : String) : String := String.ofList (plainFrom .none true s.toList)

end InfixCalc.Text

import InfixCalc.Number.Text
import InfixCalc.Text.Blank
import InfixCalc.Text.Styled

/-!
# Command line options

What a user can ask for on the command line: one statement or a file of them, bindings for their
variables, and how the results are shown.

The statement may itself start with a hyphen. As long as it is missing, an argument that starts
with a hyphen is taken for it, unless it is written in option letters only or is the name of an
option.
-/

namespace InfixCalc.CommandLine

/-- What a user asks for. -/
structure Options where
  /-- Whether `contents` is the path of a file with statements. -/
  file : Bool
  /-- The variables, in the order in which they were given. -/
  bindings : List (String × Float)
  /-- Whether programs are shown instead of their values. -/
  showCode : Bool
  /-- Whether events are shown. -/
  verbose : Bool
  /-- The statement, or the path. -/
  contents : String

/-- An option without a value. -/
inductive Switch where
  | file | showCode | verbose | help | version
  deriving DecidableEq, Repr

/-- What an argument with a hyphen can mean. -/
inductive Choice where
  | switch (s : Switch)
  /-- The option whose value binds a variable. -/
  | binding
  deriving DecidableEq, Repr

/-- The option with a given letter. -/
def Choice.ofLetter? : Char → Option Choice
  | 'f' => some (.switch .file)
  | 'v' => some .binding
  | 'p' => some (.switch .showCode)
  | 'h' => some (.switch .help)
  | 'V' => some (.switch .version)
  | _ => none

/-- The name of a switch. -/
def Switch.name : Switch → String
  | .file => "file"
  | .showCode => "postfix"
  | .verbose => "verbose"
  | .help => "help"
  | .version => "version"

/-- The option with a given name. -/
def Choice.ofName? (name : String) : Option Choice :=
  if name = "var" then some .binding
  else ([.file, .showCode, .verbose, .help, .version].find? fun s : Switch ↦ s.name == name).map
    .switch

/-! ### Errors -/

/-- Why a binding cannot be read. -/
inductive BindingError where
  | noEquals
  | notANumber (value : String)
  deriving DecidableEq, Repr

/-- Why a command line cannot be understood. -/
inductive UsageError where
  | invalidBinding (raw : String) (error : BindingError)
  | missingBinding
  | unexpectedArgument (argument : String)
  | unexpectedValue (value : String) (s : Switch)
  | repeated (s : Switch)
  | missingContents
  deriving DecidableEq, Repr

/-- Why a binding cannot be read, in words. -/
def BindingError.message (raw : String) : BindingError → String
  | .noEquals => "expected NAME=VALUE, found '" ++ raw ++ "'"
  | .notANumber value => "'" ++ value ++ "' is not a number"

namespace UsageError

/-- The option that binds a variable, as it is shown to the user. -/
def bindingOption : String := Text.styled .literal "--var <NAME=VALUE>"

/-- A switch, as it is shown to the user. -/
def switchOption (s : Switch) : String := Text.styled .literal ("--" ++ s.name)

/-- What is wrong, in one styled sentence. -/
def message : UsageError → String
  | .invalidBinding raw error =>
    "invalid value '" ++ Text.styled .wrong raw ++ "' for '" ++ bindingOption ++ "': "
      ++ error.message raw
  | .missingBinding =>
    "a value is required for '" ++ bindingOption ++ "' but none was supplied"
  | .unexpectedArgument argument =>
    "unexpected argument '" ++ Text.styled .wrong argument ++ "' found"
  | .unexpectedValue value s =>
    "unexpected value '" ++ Text.styled .wrong value ++ "' for '" ++ switchOption s
      ++ "' found; no more were expected"
  | .repeated s => "the argument '" ++ switchOption s ++ "' cannot be used multiple times"
  | .missingContents =>
    "the following required arguments were not provided:\n  "
      ++ Text.styled .missing "<CONTENTS>"

/-- Whether the user has to see which arguments there are. -/
def showsUsage : UsageError → Bool
  | .invalidBinding .. | .missingBinding => false
  | _ => true

/-- What is shown to the user, with styles. -/
def notice (e : UsageError) : String :=
  Text.styled .alarm "error:" ++ " " ++ e.message
    ++ (if e.showsUsage then
      "\n\n" ++ Text.styled .heading "Usage:" ++ " revpol [OPTIONS] <CONTENTS>" else "")
    ++ "\n\nFor more information, try '" ++ Text.styled .literal "--help" ++ "'.\n"

end UsageError

/-- Why the options are not carried out. -/
inductive Refusal where
  | usage (error : UsageError)
  | help
  | version
  deriving DecidableEq, Repr

/-! ### Reading -/

/-- Split a text at its first equals sign. -/
def splitAtEquals? (cs : List Char) : Option (List Char × List Char) :=
  match cs.dropWhile (· ≠ '=') with
  | _ :: value => some (cs.takeWhile (· ≠ '='), value)
  | [] => none

/-- Read a binding, a name and a number with an equals sign between them and blanks around both. -/
def readBinding (raw : String) : Except BindingError (String × Float) :=
  match splitAtEquals? raw.toList with
  | none => .error .noEquals
  | some (name, value) =>
    match Number.read? (String.ofList (Text.trim value)) with
    | none => .error (.notANumber (String.ofList value))
    | some number => .ok (String.ofList (Text.trim name), number)

/-- How far a command line has been read. -/
structure Reading where
  switches : List Switch
  bindings : List (String × Float)
  contents : Option String
  /-- The option that binds a variable, if it was the last one, and its value if that was read. -/
  pending : Option (Option String)

namespace Reading

/-- Before the first argument. -/
def initial : Reading := ⟨[], [], none, none⟩

/-- Add the binding with a given text. -/
def addBinding (r : Reading) (raw : String) : Except Refusal Reading :=
  match readBinding raw with
  | .ok binding => .ok { r with bindings := r.bindings ++ [binding] }
  | .error error => .error (.usage (.invalidBinding raw error))

/-- Complete the last option. -/
def settle (r : Reading) : Except Refusal Reading :=
  match r.pending with
  | none => .ok r
  | some none => .error (.usage .missingBinding)
  | some (some raw) => { r with pending := none }.addBinding raw

/-- Turn a switch on. -/
def turnOn (r : Reading) (s : Switch) : Except Refusal Reading :=
  r.settle.bind fun r ↦
    match s with
    | .help => .error .help
    | .version => .error .version
    | s =>
      if s ∈ r.switches then .error (.usage (.repeated s))
      else .ok { r with switches := s :: r.switches }

/-- Read the option that binds a variable, with the value that is written to it if there is one. -/
def readBindingOption (r : Reading) (value : Option String) : Except Refusal Reading :=
  r.settle.bind fun r ↦
    match value with
    | some raw => r.addBinding raw
    | none => .ok { r with pending := some none }

/-- Read the statement or the path. -/
def readContents (r : Reading) (argument : String) : Except Refusal Reading :=
  match r.contents with
  | none => r.settle.map fun r ↦ { r with contents := some argument }
  | some _ => .error (.usage (.unexpectedArgument argument))

/-- Read an argument that is no option: a value that the last option waits for, or the contents. -/
def readValue (r : Reading) (argument : String) : Except Refusal Reading :=
  match r.pending with
  | some none => .ok { r with pending := some (some argument) }
  | _ => r.readContents argument

/-- Read an argument after two hyphens: the name of an option, perhaps with a value. -/
def readName (r : Reading) (argument : String) (cs : List Char) : Except Refusal Reading :=
  let (name, value) := match splitAtEquals? cs with
    | some (name, value) => (String.ofList name, some (String.ofList value))
    | none => (String.ofList cs, none)
  match Choice.ofName? name, value with
  | some .binding, value => r.readBindingOption value
  | some (.switch s), none => r.turnOn s
  | some (.switch s), some value => .error (.usage (.unexpectedValue value s))
  | none, _ =>
    if r.contents.isNone then r.readValue argument
    else .error (.usage (.unexpectedArgument ("--" ++ name)))

/-- Read option letters. What follows the letter of a binding is its value. -/
def readLetters (r : Reading) : List Char → Except Refusal Reading
  | [] => .ok r
  | c :: cs =>
    match Choice.ofLetter? c with
    | some (.switch s) => (r.turnOn s).bind fun r ↦ r.readLetters cs
    | some .binding =>
      match cs with
      | [] => r.readBindingOption none
      | '=' :: value => r.readBindingOption (some (String.ofList value))
      | value => r.readBindingOption (some (String.ofList value))
    | none => .error (.usage (.unexpectedArgument (String.ofList ['-', c])))

/-- Read an argument that may be an option. -/
def readArgument (r : Reading) (argument : String) : Except Refusal Reading :=
  match argument.toList with
  | '-' :: '-' :: cs => r.readName argument cs
  | '-' :: c :: cs =>
    if r.contents.isNone && (c :: cs).any (fun c ↦ (Choice.ofLetter? c).isNone) then
      r.readValue argument
    else r.readLetters (c :: cs)
  | _ => r.readValue argument

/-- Read the arguments in turn. After two hyphens that stand alone none is an option any more. -/
def readAll (r : Reading) : List String → Except Refusal Reading
  | [] => r.settle
  | "--" :: rest => (rest.foldlM readContents r).bind settle
  | argument :: rest => (r.readArgument argument).bind fun r ↦ r.readAll rest

end Reading

/-- What a command line asks for. -/
def Options.ofArguments (arguments : List String) : Except Refusal Options :=
  (Reading.initial.readAll arguments).bind fun r ↦
    match r.contents with
    | none => .error (.usage .missingContents)
    | some contents =>
      .ok
        { file := r.switches.contains .file
          bindings := r.bindings
          showCode := r.switches.contains .showCode
          verbose := r.switches.contains .verbose
          contents }

end InfixCalc.CommandLine
